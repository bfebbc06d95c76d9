import MetalOrm.Spec.DdlColumns

/-!
# The constraints of a table come back from its text

The body of the text that `create_table_sql` writes is split into a segment for each column, for the
primary key of several columns, and for each check of the table. The first kind changes one column,
the second nothing, and the third adds a check.

## Key results

- `splitTableBody_createTable`: the segments of the text
- `foldl_columns`: the segments of the columns change each column once
- `create_table_round_trip`: the three parsers over the text of a table
-/

namespace MetalOrm.Native.Ddl

open Query (sqliteDialect quoteAnsiIdentifier)
open Schema (DatabaseTable DatabaseColumn DatabaseCheck ForeignKeyReference)

/-! ## Segments of the table -/

/-- A segment of the table: the word after its name, and what a parser searches that takes it for a
    column. -/
structure TableSegment (bad : List Char → Prop) (word : String) (segment : List Char) : Prop where
  keyword : ∃ constraint pos prev rest,
    tableConstraint segment = (constraint, ⟨pos, prev, word.toList ++ ' ' :: rest⟩)
  name : ∃ name pos prev rest,
    readSqlIdentifier (.start segment) = (some name, ⟨pos, prev, rest⟩) ∧ Plain bad rest

/-- A segment that begins with a word. -/
theorem readSqlIdentifier_word {word : String} (hword : IsKeyword word) (rest : List Char) :
    readSqlIdentifier (.start (word.toList ++ ' ' :: rest)) =
      (some word.toList, ⟨word.toList.length, lastOf word.toList none, ' ' :: rest⟩) := by
  have hends : ∀ ch ∈ word.toList, endsIdentifier ch = false :=
    fun ch hch => endsIdentifier_of_identifierChar (hword.identifier ch hch)
  have hbare := readBare_word hends (by simp; decide : ∀ ch ∈ (' ' :: rest).head?,
    endsIdentifier ch = true) [] 0 none
  have hskip := @skipSqlSpace_stop 0 none _ (hword.head_not_space (' ' :: rest))
  obtain ⟨first, letters, hletters⟩ := List.exists_cons_of_ne_nil hword.nonempty
  have hordinary := ordinary_of_identifierChar (hword.identifier first (by simp [hletters]))
  unfold ordinary at hordinary
  simp only [List.mem_cons, List.not_mem_nil, or_false, not_or, decide_eq_true_eq] at hordinary
  unfold readSqlIdentifier Cursor.start
  rw [hskip]
  rw [hletters] at hbare ⊢
  simp only [List.cons_append] at hbare ⊢
  rw [if_neg (by simp [hordinary]), hbare]
  simp

/-- The constraint of a segment that begins with another word. -/
theorem tableConstraint_word {word : String} (hword : IsKeyword word)
    (hother : word.toList ≠ "CONSTRAINT".toList) (rest : List Char) :
    tableConstraint (word.toList ++ ' ' :: rest) = (none, ⟨0, none, word.toList ++ ' ' :: rest⟩) := by
  have hskip := @skipSqlSpace_stop 0 none _ (hword.head_not_space (' ' :: rest))
  have hspace : Separated (' ' :: rest) := separated_cons (by decide) rest
  have hnot := keywordAt_other (by decide : IsKeyword "CONSTRAINT") hword hother 0 none
    hspace.not_identifierChar
  unfold tableConstraint Cursor.start
  dsimp only
  rw [hskip, hnot]
  rfl

/-- The constraint of a segment that begins with `CONSTRAINT`. -/
theorem tableConstraint_named (name : String) {rest : List Char}
    (hrest : ∀ ch ∈ rest.head?, isSpace ch = false) :
    ∃ pos, tableConstraint ("CONSTRAINT".toList ++ ' ' :: (quotedName name ++ ' ' :: rest)) =
      (some name.toList, ⟨pos, some ' ', rest⟩) := by
  have hkeyword : IsKeyword "CONSTRAINT" := by decide
  have hskip := @skipSqlSpace_stop 0 none _
    (hkeyword.head_not_space (' ' :: (quotedName name ++ ' ' :: rest)))
  have hspace : Separated (' ' :: (quotedName name ++ ' ' :: rest)) :=
    separated_cons (by decide) _
  obtain ⟨c, hread, hnext⟩ := readSqlIdentifier_naming name hrest (0 + "CONSTRAINT".length)
    (lastOf "CONSTRAINT".toList none)
  unfold tableConstraint Cursor.start
  dsimp only
  rw [hskip, keywordAt_of_word "CONSTRAINT" 0 rfl hspace.not_identifierChar, if_pos rfl,
    advance_word, hread]
  dsimp only
  rw [hnext]
  exact ⟨_, rfl⟩

section TableSegment

variable {bad : List Char → Prop} {word : String} {segment : List Char}
  (h : TableSegment bad word segment) (hword : IsKeyword word) (table : DatabaseTable)

include h hword

/-- `parse_sqlite_unique_constraints` takes nothing from another segment of the table. -/
theorem parseUniqueSegment_table (hother : word.toList ≠ "UNIQUE".toList)
    (hbad : bad "UNIQUE".toList) : parseUniqueSegment table segment = table := by
  obtain ⟨constraint, pos, prev, rest, hconstraint⟩ := h.keyword
  obtain ⟨name, pos', prev', rest', hname, hplain⟩ := h.name
  have hspace : Separated (' ' :: rest) := separated_cons (by decide) rest
  have hnot := keywordAt_other (by decide : IsKeyword "UNIQUE") hword hother pos prev
    hspace.not_identifierChar
  have hnone := find_none (by decide : IsKeyword "UNIQUE")
    (hplain.mono fun token htoken => htoken ▸ hbad) pos' prev'
  unfold parseUniqueSegment
  rw [hconstraint, hname]
  dsimp only
  rw [hnot, hnone]
  simp

/-- `parse_sqlite_foreign_key_modifiers` takes nothing from another segment of the table. -/
theorem parseReferenceSegment_table (hother : word.toList ≠ "FOREIGN".toList)
    (hbad : bad "REFERENCES".toList) : parseReferenceSegment table segment = table := by
  obtain ⟨constraint, pos, prev, rest, hconstraint⟩ := h.keyword
  obtain ⟨name, pos', prev', rest', hname, hplain⟩ := h.name
  have hspace : Separated (' ' :: rest) := separated_cons (by decide) rest
  have hnot := keywordAt_other (by decide : IsKeyword "FOREIGN") hword hother pos prev
    hspace.not_identifierChar
  have hnone := find_none (by decide : IsKeyword "REFERENCES")
    (hplain.mono fun token htoken => htoken ▸ hbad) pos' prev'
  unfold parseReferenceSegment
  rw [hconstraint, hname]
  dsimp only
  rw [hnot, hnone]
  simp

/-- `parse_sqlite_check_constraints` takes nothing from a segment of the table without a check. -/
theorem parseCheckSegment_table (hother : word.toList ≠ "CHECK".toList)
    (hbad : bad "CHECK".toList) : parseCheckSegment table segment = table := by
  obtain ⟨constraint, pos, prev, rest, hconstraint⟩ := h.keyword
  obtain ⟨name, pos', prev', rest', hname, hplain⟩ := h.name
  have hspace : Separated (' ' :: rest) := separated_cons (by decide) rest
  have hnot := keywordAt_other (by decide : IsKeyword "CHECK") hword hother pos prev
    hspace.not_identifierChar
  have hnone := find_none (by decide : IsKeyword "CHECK")
    (hplain.mono fun token htoken => htoken ▸ hbad) pos' prev'
  unfold parseCheckSegment
  rw [hconstraint, hname]
  dsimp only
  rw [hnot, hnone]
  simp

end TableSegment

/-! ## The primary key and the checks of a table -/

theorem intercalate_toList (first : String) (others : List String) :
    (", ".intercalate (first :: others)).toList =
      joined first.toList (others.map String.toList) := by
  rw [String.toList_intercalate]
  induction others generalizing first with
  | nil => simp [joined]
  | cons second others ih =>
    have hsecond := ih second
    simp only [List.map_cons, List.intercalate_cons_cons, joined, List.flatMap_cons] at hsecond ⊢
    rw [hsecond]
    simp

/-- The primary key of several columns. -/
def primaryKeyText (names : List String) : List Char :=
  "PRIMARY".toList ++ ' ' :: ("KEY".toList ++ ' ' :: '(' ::
    ((", ".intercalate (names.map quoteAnsiIdentifier)).toList ++ [')']))

theorem balanced_names (names : List String) :
    Balanced (", ".intercalate (names.map quoteAnsiIdentifier)).toList := by
  cases names with
  | nil => exact .nil
  | cons name names =>
    rw [List.map_cons, intercalate_toList, quoteAnsiIdentifier_toList]
    apply balanced_joined (plain_quotedName _ name)
    intro other hother
    simp only [List.map_map, List.mem_map, Function.comp_apply] at hother
    obtain ⟨name', _, rfl⟩ := hother
    rw [quoteAnsiIdentifier_toList]
    exact plain_quotedName _ name'

theorem tableSegment_primaryKey (names : List String) :
    TableSegment Constrained "PRIMARY" (primaryKeyText names) where
  keyword := ⟨none, 0, none, _, tableConstraint_word (by decide) (by decide) _⟩
  name := by
    refine ⟨_, _, _, _, readSqlIdentifier_word (by decide) _, ?_⟩
    exact plain_space (by decide) (plain_word "KEY" (by decide) (by decide)
      (plain_space (by decide) (plain_group (balanced_names names))) (separated_cons (by decide) _))

/-- A check of the table. -/
def tableCheckText (check : TableCheck) : List Char :=
  (match check.name with
    | some name => "CONSTRAINT".toList ++ ' ' :: (quotedName name ++ [' '])
    | none => []) ++ ("CHECK".toList ++ ' ' :: '(' :: (check.expression.toList ++ [')']))

theorem tableCheckSql_toList (check : TableCheck) :
    (tableCheckSql sqliteDialect check).toList = tableCheckText check := by
  have hconstraint : "CONSTRAINT ".toList = "CONSTRAINT".toList ++ [' '] := by decide
  have hcheck : "CHECK (".toList = "CHECK".toList ++ [' ', '('] := by decide
  have hspace : " ".toList = [' '] := by decide
  have hclose : ")".toList = [')'] := by decide
  unfold tableCheckSql tableCheckText
  cases check.name with
  | none => simp only [String.toList_append, hcheck, hclose, List.append_assoc,
      List.cons_append, List.nil_append, String.empty_append]
  | some name =>
    simp only [String.toList_append, hconstraint, hcheck, hspace, hclose, sqliteDialect,
      quoteAnsiIdentifier_toList, List.append_assoc, List.cons_append, List.nil_append]

/-- What the two other parsers look for. -/
def UniqueOrReference (token : List Char) : Prop :=
  token ∈ ["UNIQUE", "REFERENCES"].map String.toList

instance (token : List Char) : Decidable (UniqueOrReference token) :=
  inferInstanceAs (Decidable (token ∈ _))

/-- The position of the word `CHECK`, with the declared name before it. -/
theorem tableConstraint_check (check : TableCheck) :
    ∃ pos prev, prev.any sqlIdentifierChar = false ∧
      tableConstraint (tableCheckText check) = (check.name.map String.toList,
        ⟨pos, prev, "CHECK".toList ++ ' ' :: '(' :: (check.expression.toList ++ [')'])⟩) := by
  unfold tableCheckText
  cases check.name with
  | none => exact ⟨0, none, rfl, tableConstraint_word (by decide) (by decide) _⟩
  | some name =>
    have hkeyword : IsKeyword "CHECK" := by decide
    obtain ⟨pos, hpos⟩ := tableConstraint_named name
      (hkeyword.head_not_space (' ' :: '(' :: (check.expression.toList ++ [')'])))
    refine ⟨pos, some ' ', by decide, ?_⟩
    simp only [List.append_assoc, List.cons_append, List.nil_append] at hpos ⊢
    exact hpos

theorem tableSegment_check {check : TableCheck} (h : Balanced check.expression.toList) :
    TableSegment UniqueOrReference "CHECK" (tableCheckText check) where
  keyword := by
    obtain ⟨pos, prev, _, hconstraint⟩ := tableConstraint_check check
    exact ⟨_, _, _, _, hconstraint⟩
  name := by
    have hgroup : Plain UniqueOrReference (' ' :: '(' :: (check.expression.toList ++ [')'])) :=
      plain_space (by decide) (plain_group h)
    unfold tableCheckText
    cases check.name with
    | none => exact ⟨_, _, _, _, readSqlIdentifier_word (by decide) _, hgroup⟩
    | some name =>
      have hcheck : Plain UniqueOrReference (' ' :: (quotedName name ++
          ' ' :: ("CHECK".toList ++ ' ' :: '(' :: (check.expression.toList ++ [')'])))) :=
        plain_space (by decide) ((plain_quotedName _ name).append
          (plain_space (by decide) (plain_word "CHECK" (by decide) (by decide) hgroup
            (separated_cons (by decide) _))) (separated_cons (by decide) _))
      have hread := readSqlIdentifier_word (by decide : IsKeyword "CONSTRAINT") (quotedName name ++
        ' ' :: ("CHECK".toList ++ ' ' :: '(' :: (check.expression.toList ++ [')'])))
      have htext : ("CONSTRAINT".toList ++ ' ' :: (quotedName name ++ [' '])) ++
          ("CHECK".toList ++ ' ' :: '(' :: (check.expression.toList ++ [')'])) =
          "CONSTRAINT".toList ++ ' ' :: (quotedName name ++
            ' ' :: ("CHECK".toList ++ ' ' :: '(' :: (check.expression.toList ++ [')']))) := by
        simp only [List.append_assoc, List.cons_append, List.nil_append]
      dsimp only
      rw [htext]
      exact ⟨_, _, _, _, hread, hcheck⟩

/-- The declared check of a table, less the blanks around it. -/
def declaredCheck (check : TableCheck) : DatabaseCheck where
  name := check.name
  expression := String.ofList (trimSqlView check.expression.toList)

/-- What `parse_sqlite_check_constraints` takes from a check of the table. -/
theorem parseCheckSegment_tableCheck {check : TableCheck} (h : Balanced check.expression.toList)
    (table : DatabaseTable) :
    parseCheckSegment table (tableCheckText check) =
      { table with checks := table.checks ++ [declaredCheck check] } := by
  obtain ⟨pos, prev, hprev, hconstraint⟩ := tableConstraint_check check
  have hspace : Separated (' ' :: '(' :: (check.expression.toList ++ [')'])) :=
    separated_cons (by decide) _
  have hextract := extractCheckExpression_group h pos prev []
  have hne : (tableCheckText check).isEmpty = false := by
    unfold tableCheckText
    cases check.name <;> simp
  have hname : (check.name.map String.toList).map String.ofList = check.name := by
    cases check.name with
    | none => rfl
    | some name => simp
  unfold parseCheckSegment
  rw [hconstraint, if_neg (by simp [hne])]
  dsimp only
  rw [keywordAt_of_word "CHECK" pos hprev hspace.not_identifierChar, if_pos rfl, hextract]
  dsimp only
  rw [hname]
  rfl

/-- A segment of the table has no blanks around it. -/
theorem trimSqlView_word {word : String} (hword : IsKeyword word) (rest : List Char) {last : Char}
    (hlast : isSpace last = false) : trimSqlView (word.toList ++ (rest ++ [last])) =
      word.toList ++ (rest ++ [last]) := by
  have htrimmed : Trimmed (word.toList ++ (rest ++ [last])) :=
    (trimmed_concat hlast rest).after (by simp) _
  have htrim := trimSqlView_append (by simp) htrimmed (hword.head_not_space (rest ++ [last])) []
  rwa [List.rdropWhile_nil, List.append_nil] at htrim

theorem trimSqlView_primaryKey (names : List String) :
    trimSqlView (primaryKeyText names) = primaryKeyText names := by
  have htrim := trimSqlView_word (by decide : IsKeyword "PRIMARY") (' ' :: ("KEY".toList ++
    ' ' :: '(' :: (", ".intercalate (names.map quoteAnsiIdentifier)).toList))
    (by decide : isSpace ')' = false)
  unfold primaryKeyText
  simp only [List.append_assoc, List.cons_append] at htrim ⊢
  exact htrim

theorem trimSqlView_tableCheck (check : TableCheck) :
    trimSqlView (tableCheckText check) = tableCheckText check := by
  unfold tableCheckText
  cases check.name with
  | none =>
    exact trimSqlView_word (by decide) (' ' :: '(' :: check.expression.toList) (by decide)
  | some name =>
    have htrim := trimSqlView_word (by decide : IsKeyword "CONSTRAINT") (' ' :: (quotedName name ++
      ' ' :: ("CHECK".toList ++ ' ' :: '(' :: check.expression.toList)))
      (by decide : isSpace ')' = false)
    simp only [List.append_assoc, List.cons_append, List.nil_append] at htrim ⊢
    exact htrim

/-! ## The segments of a text -/

/-- What the mapping may declare for a table. -/
structure MappedTable.Readable (table : MappedTable) : Prop where
  columns : ∀ column ∈ table.columns, column.Readable
  checks : ∀ check ∈ table.checks, Balanced check.expression.toList

/-- The segments of the table itself. -/
def tableTexts (table : MappedTable) : List (List Char) :=
  (if primaryKeyCount table > 1 then
    [primaryKeyText ((table.columns.filter (·.primaryKey)).map (·.name))] else []) ++
    table.checks.map tableCheckText

theorem primaryKeyText_eq (names : List String) :
    ("PRIMARY KEY (" ++ ", ".intercalate (names.map quoteAnsiIdentifier) ++ ")").toList =
      primaryKeyText names := by
  unfold primaryKeyText
  generalize ", ".intercalate (names.map quoteAnsiIdentifier) = inner
  simp

theorem tableTexts_eq (table : MappedTable) :
    (primaryKeySql sqliteDialect table ++ table.checks.map (tableCheckSql sqliteDialect)).map
      String.toList = tableTexts table := by
  have hkey : (primaryKeySql sqliteDialect table).map String.toList =
      if primaryKeyCount table > 1 then
        [primaryKeyText ((table.columns.filter (·.primaryKey)).map (·.name))] else [] := by
    have hnames : ((table.columns.filter (·.primaryKey)).map fun column =>
        sqliteDialect.quoteIdentifier column.name) =
          ((table.columns.filter (·.primaryKey)).map (·.name)).map quoteAnsiIdentifier := by
      rw [List.map_map]
      rfl
    unfold primaryKeySql
    rw [hnames]
    split
    · exact congrArg (fun text => [text]) (primaryKeyText_eq _)
    · rfl
  have hcheck : (table.checks.map (tableCheckSql sqliteDialect)).map String.toList =
      table.checks.map tableCheckText := by
    rw [List.map_map]
    exact List.map_congr_left fun check _ => tableCheckSql_toList check
  rw [List.map_append, hkey, hcheck]
  rfl

theorem plain_tableTexts {table : MappedTable} (h : table.Readable) :
    ∀ text ∈ tableTexts table, Plain IsComma text := by
  intro text htext
  rw [tableTexts, List.mem_append] at htext
  obtain hkey | hcheck := htext
  · split at hkey
    · obtain rfl : text = primaryKeyText _ := by simpa using hkey
      exact plain_word "PRIMARY" (by decide) (by decide) (plain_space (by decide)
        (plain_word "KEY" (by decide) (by decide) (plain_space (by decide)
          (plain_group (balanced_names _))) (separated_cons (by decide) _)))
        (separated_cons (by decide) _)
    · exact absurd hkey (by simp)
  · obtain ⟨check, hmem, rfl⟩ := List.mem_map.mp hcheck
    have hplain : Plain IsComma
        ("CHECK".toList ++ ' ' :: '(' :: (check.expression.toList ++ [')'])) :=
      plain_word "CHECK" (by decide) (by decide)
        (plain_space (by decide) (plain_group (h.checks check hmem))) (separated_cons (by decide) _)
    unfold tableCheckText
    cases check.name with
    | none => exact hplain
    | some name =>
      have hnamed : Plain IsComma ("CONSTRAINT".toList ++ ' ' :: (quotedName name ++
          ' ' :: ("CHECK".toList ++ ' ' :: '(' :: (check.expression.toList ++ [')'])))) :=
        plain_word "CONSTRAINT" (by decide) (by decide) (plain_space (by decide)
          ((plain_quotedName _ name).append (plain_space (by decide) hplain)
            (separated_cons (by decide) _))) (separated_cons (by decide) _)
      simp only [List.append_assoc, List.cons_append, List.nil_append] at hnamed ⊢
      exact hnamed

theorem trimSqlView_tableTexts (table : MappedTable) :
    (tableTexts table).map trimSqlView = tableTexts table := by
  conv_rhs => rw [← List.map_id (tableTexts table)]
  apply List.map_congr_left
  intro text htext
  rw [tableTexts, List.mem_append] at htext
  obtain hkey | hcheck := htext
  · split at hkey
    · obtain rfl : text = primaryKeyText _ := by simpa using hkey
      exact trimSqlView_primaryKey _
    · exact absurd hkey (by simp)
  · obtain ⟨check, _, rfl⟩ := List.mem_map.mp hcheck
    exact trimSqlView_tableCheck check

theorem plain_columnSql {column : MappedColumn} (h : column.Readable) (pkCount : Nat) :
    Plain IsComma (columnSql sqliteDialect pkCount column).toList := by
  rw [columnSql_toList]
  exact (plain_quotedName _ _).append
    (plain_afterNameText h pkCount constrained_comma
      (plain_uniquePart (by decide) (by decide) (by decide) column)
      (plain_checkPart (by decide) (by decide) h)
      (plain_referencePart (by decide) (by decide) column))
    (separated_afterNameText pkCount column)

/-- The text of a table, by the segments of its body. -/
theorem createTableSql_toList (table : MappedTable) :
    (createTableSql sqliteDialect table).toList = "CREATE TABLE IF NOT EXISTS ".toList ++
      (quotedName table.name ++ ' ' :: '(' :: (((", ".intercalate (table.columns.map
        (columnSql sqliteDialect (primaryKeyCount table)))).toList ++
          (tableTexts table).flatMap fun text => ", ".toList ++ text) ++ ')' :: [';'])) := by
  have hopen : " (".toList = [' ', '('] := by decide
  have hclose : ");".toList = [')', ';'] := by decide
  have htables : (String.join ((primaryKeySql sqliteDialect table ++
      table.checks.map (tableCheckSql sqliteDialect)).map fun part => ", " ++ part)).toList =
        (tableTexts table).flatMap fun text => ", ".toList ++ text := by
    rw [String.toList_join, ← tableTexts_eq, List.flatMap_map, List.flatMap_map]
    simp only [String.toList_append]
  have hname : sqliteDialect.quoteIdentifier table.name = quoteAnsiIdentifier table.name := rfl
  unfold createTableSql
  rw [hname]
  simp only [String.toList_append, htables, hopen, hclose, quoteAnsiIdentifier_toList]
  simp only [List.append_assoc, List.cons_append, List.nil_append]

/-- The segments of the text of a table. -/
theorem splitTableBody_createTable {table : MappedTable} (h : table.Readable) :
    splitSqliteTableBody (createTableSql sqliteDialect table).toList =
      (if table.columns.isEmpty then [[]] else []) ++
        table.columns.map (columnSegment (primaryKeyCount table)) ++ tableTexts table := by
  have hheader : ∀ ch ∈ "CREATE TABLE IF NOT EXISTS ".toList,
      isQuote ch = false ∧ ch ≠ '[' ∧ ch ≠ '(' := by
    have hall : "CREATE TABLE IF NOT EXISTS ".toList.all
        (fun ch => !isQuote ch && ch ≠ '[' && ch ≠ '(') = true := by decide
    intro ch hch
    simpa [and_assoc] using List.all_eq_true.mp hall ch hch
  have hplain := plain_tableTexts h
  -- the texts are joined, whether there are columns or not
  have hbody : ∀ first others,
      (", ".intercalate (table.columns.map
        (columnSql sqliteDialect (primaryKeyCount table)))).toList ++
          ((tableTexts table).flatMap fun text => ", ".toList ++ text) = joined first others →
      (createTableSql sqliteDialect table).toList =
        "CREATE TABLE IF NOT EXISTS ".toList ++ '"' :: (doubled '"' table.name.toList ++
          '"' :: ' ' :: '(' :: (joined first others ++ ')' :: [';'])) := by
    intro first others hjoined
    rw [createTableSql_toList, hjoined, quotedName_append]
  cases hcolumns : table.columns with
  | nil =>
    have hjoined : (", ".intercalate (table.columns.map
        (columnSql sqliteDialect (primaryKeyCount table)))).toList ++
          ((tableTexts table).flatMap fun text => ", ".toList ++ text) =
        joined [] (tableTexts table) := by
      rw [hcolumns]
      rfl
    rw [hbody _ _ hjoined, splitTableBody_joined hheader .nil hplain, List.map_cons,
      trimSqlView_tableTexts]
    rfl
  | cons column columns =>
    have hreadable := h.columns
    rw [hcolumns] at hreadable
    obtain ⟨hcolumn, hrest⟩ := List.forall_mem_cons.mp hreadable
    have hjoined : (", ".intercalate (table.columns.map
        (columnSql sqliteDialect (primaryKeyCount table)))).toList ++
          ((tableTexts table).flatMap fun text => ", ".toList ++ text) =
        joined (columnSql sqliteDialect (primaryKeyCount table) column).toList
          (columns.map (fun column =>
            (columnSql sqliteDialect (primaryKeyCount table) column).toList) ++
              tableTexts table) := by
      rw [hcolumns, List.map_cons, intercalate_toList, List.map_map, joined, joined,
        List.flatMap_append, List.append_assoc]
      rfl
    have hothers : ∀ other ∈ columns.map (fun column =>
        (columnSql sqliteDialect (primaryKeyCount table) column).toList) ++ tableTexts table,
        Plain IsComma other := by
      intro other hother
      obtain hother | hother := List.mem_append.mp hother
      · obtain ⟨column', hmem, rfl⟩ := List.mem_map.mp hother
        exact plain_columnSql (hrest column' hmem) _
      · exact hplain other hother
    rw [hbody _ _ hjoined, splitTableBody_joined hheader (plain_columnSql hcolumn _) hothers,
      List.map_cons, List.map_append, trimSqlView_tableTexts, List.map_map, List.isEmpty_cons,
      if_neg Bool.false_ne_true, List.nil_append, List.map_cons]
    have hsegment : columnSegment (primaryKeyCount table) = fun column =>
        trimSqlView (columnSql sqliteDialect (primaryKeyCount table) column).toList := by
      funext column
      rw [columnSegment]
    simp only [hsegment, Function.comp_def, List.cons_append]

/-! ## All the segments -/

section Fold

variable {parse : DatabaseTable → List Char → DatabaseTable}
  {change : MappedColumn → DatabaseColumn → DatabaseColumn} {segment : MappedColumn → List Char}

/-- A column that stands after others with other names. -/
theorem updateColumn_append {name : List Char} {before : List DatabaseColumn}
    (hbefore : ∀ column ∈ before, column.name.toList ≠ name) {column : DatabaseColumn}
    (hcolumn : column.name.toList = name) (f : DatabaseColumn → DatabaseColumn)
    (after : List DatabaseColumn) :
    updateColumn name f (before ++ column :: after) = before ++ f column :: after := by
  induction before with
  | nil => rw [List.nil_append, updateColumn, if_pos hcolumn, List.nil_append]
  | cons first before ih =>
    obtain ⟨hfirst, hbefore⟩ := List.forall_mem_cons.mp hbefore
    rw [List.cons_append, updateColumn, if_neg hfirst, ih hbefore, List.cons_append]

/-- The segments of the columns change each column once, whatever stands before them. -/
theorem foldl_columns_after (columns : List MappedColumn)
    (hparse : ∀ mapped ∈ columns, ∀ table, parse table (segment mapped) =
      { table with columns := updateColumn mapped.name.toList (change mapped) table.columns })
    (hname : ∀ mapped column, (change mapped column).name = column.name)
    (hnodup : (columns.map (·.name)).Nodup) (table : DatabaseTable) :
    ∀ before after : List DatabaseColumn, table.columns = before ++ after →
      after.map (·.name) = columns.map (·.name) →
      (∀ column ∈ before, column.name ∉ columns.map (·.name)) →
      (columns.map segment).foldl parse table =
        { table with columns := before ++ List.zipWith change columns after } := by
  induction columns generalizing table with
  | nil =>
    intro before after hcolumns hafter _
    have hnil : after = [] := by simpa using hafter
    subst hnil
    rw [List.map_nil, List.foldl_nil, List.zipWith_nil_left, ← hcolumns]
  | cons mapped columns ih =>
    intro before after hcolumns hafter hbefore
    obtain ⟨hmapped, hparse⟩ := List.forall_mem_cons.mp hparse
    rw [List.map_cons, List.nodup_cons] at hnodup
    cases after with
    | nil => exact absurd hafter (by simp)
    | cons column after =>
      simp only [List.map_cons, List.cons.injEq] at hafter
      obtain ⟨hcolumn, hafter⟩ := hafter
      have hbefore' : ∀ column ∈ before, column.name.toList ≠ mapped.name.toList := by
        intro other hother heq
        exact hbefore other hother (by simp [String.toList_inj.mp heq])
      have hupdate := updateColumn_append hbefore' (congrArg String.toList hcolumn) (change mapped)
        after
      rw [List.map_cons, List.foldl_cons, hmapped table, hcolumns, hupdate,
        ih hparse hnodup.2 _ (before ++ [change mapped column]) after (by simp) hafter]
      · simp
      · intro other hother
        obtain hother | hother := List.mem_append.mp hother
        · exact fun hmem => hbefore other hother (List.mem_cons_of_mem _ hmem)
        · obtain rfl : other = change mapped column := by simpa using hother
          rw [hname, hcolumn]
          exact hnodup.1

/-- The segments of the columns change each column once. -/
theorem foldl_columns {columns : List MappedColumn}
    (hparse : ∀ mapped ∈ columns, ∀ table, parse table (segment mapped) =
      { table with columns := updateColumn mapped.name.toList (change mapped) table.columns })
    (hname : ∀ mapped column, (change mapped column).name = column.name)
    (hnodup : (columns.map (·.name)).Nodup) {table : DatabaseTable}
    (hcolumns : table.columns.map (·.name) = columns.map (·.name)) :
    (columns.map segment).foldl parse table =
      { table with columns := List.zipWith change columns table.columns } :=
  foldl_columns_after columns hparse hname hnodup table [] table.columns rfl hcolumns (by simp)

end Fold

section Parsers

variable {table : MappedTable} (h : table.Readable)

/-- Nothing is taken from a segment that is empty, nor from those of the table. -/
theorem foldl_tableTexts {parse : DatabaseTable → List Char → DatabaseTable}
    (hkey : ∀ names table, parse table (primaryKeyText names) = table)
    (hcheck : ∀ check ∈ table.checks, ∀ table, parse table (tableCheckText check) = table)
    (database : DatabaseTable) : (tableTexts table).foldl parse database = database := by
  have hall : ∀ text ∈ tableTexts table, ∀ database, parse database text = database := by
    intro text htext database
    rw [tableTexts, List.mem_append] at htext
    obtain htext | htext := htext
    · split at htext
      · obtain rfl : text = primaryKeyText _ := by simpa using htext
        exact hkey _ database
      · exact absurd htext (by simp)
    · obtain ⟨check, hmem, rfl⟩ := List.mem_map.mp htext
      exact hcheck check hmem database
  generalize tableTexts table = texts at hall
  induction texts generalizing database with
  | nil => rfl
  | cons text texts ih =>
    obtain ⟨htext, htexts⟩ := List.forall_mem_cons.mp hall
    rw [List.foldl_cons, htext, ih database htexts]

theorem foldl_empty {parse : DatabaseTable → List Char → DatabaseTable}
    (hempty : ∀ table, parse table [] = table) (database : DatabaseTable) :
    (if table.columns.isEmpty then [([] : List Char)] else []).foldl parse database = database := by
  split
  · exact hempty database
  · rfl

variable {database : DatabaseTable}
  (hcolumns : database.columns.map (·.name) = table.columns.map (·.name))

include h hcolumns

/-- What `parse_sqlite_unique_constraints` sets. -/
theorem parseUnique_createTable :
    parseSqliteUniqueConstraints (createTableSql sqliteDialect table).toList database =
      { database with
        columns := List.zipWith MappedColumn.declareUnique table.columns database.columns } := by
  unfold parseSqliteUniqueConstraints
  rw [splitTableBody_createTable h, List.foldl_append, List.foldl_append, foldl_empty fun _ => rfl,
    foldl_columns (fun mapped hmapped => parseUnique_column (h.columns mapped hmapped) _) _
      table.nodup hcolumns, foldl_tableTexts]
  · intro names other
    exact parseUniqueSegment_table (tableSegment_primaryKey names) (by decide) other (by decide)
      (by decide)
  · intro check hcheck other
    exact parseUniqueSegment_table (tableSegment_check (h.checks check hcheck)) (by decide) other
      (by decide) (by decide)
  · intro mapped column
    unfold MappedColumn.declareUnique
    split <;> rfl

/-- What `parse_sqlite_foreign_key_modifiers` sets. -/
theorem parseReference_createTable :
    parseSqliteForeignKeyModifiers (createTableSql sqliteDialect table).toList database =
      { database with
        columns := List.zipWith MappedColumn.declareReference table.columns database.columns } := by
  unfold parseSqliteForeignKeyModifiers
  rw [splitTableBody_createTable h, List.foldl_append, List.foldl_append, foldl_empty fun _ => rfl,
    foldl_columns (fun mapped hmapped => parseReference_column (h.columns mapped hmapped) _) _
      table.nodup hcolumns, foldl_tableTexts]
  · intro names other
    exact parseReferenceSegment_table (tableSegment_primaryKey names) (by decide) other (by decide)
      (by decide)
  · intro check hcheck other
    exact parseReferenceSegment_table (tableSegment_check (h.checks check hcheck)) (by decide) other
      (by decide) (by decide)
  · intro mapped column
    unfold MappedColumn.declareReference modifyReference
    split <;> rfl

/-- What `parse_sqlite_check_constraints` sets. -/
theorem parseCheck_createTable :
    parseSqliteCheckConstraints (createTableSql sqliteDialect table).toList database =
      { database with
        columns := List.zipWith MappedColumn.declareCheck table.columns database.columns
        checks := database.checks ++ table.checks.map declaredCheck } := by
  have hkey : ∀ other : DatabaseTable, (if primaryKeyCount table > 1 then
      [primaryKeyText ((table.columns.filter (·.primaryKey)).map (·.name))] else []).foldl
        parseCheckSegment other = other := by
    intro other
    split
    · exact parseCheckSegment_table (tableSegment_primaryKey _) (by decide) other (by decide)
        (by decide)
    · rfl
  have hchecks : ∀ (checks : List TableCheck), (∀ check ∈ checks, check ∈ table.checks) →
      ∀ other : DatabaseTable, (checks.map tableCheckText).foldl parseCheckSegment other =
        { other with checks := other.checks ++ checks.map declaredCheck } := by
    intro checks
    induction checks with
    | nil =>
      intro _ other
      simp
    | cons check checks ih =>
      intro hmem other
      obtain ⟨hcheck, hmem⟩ := List.forall_mem_cons.mp hmem
      rw [List.map_cons, List.foldl_cons, parseCheckSegment_tableCheck (h.checks check hcheck),
        ih hmem]
      simp
  unfold parseSqliteCheckConstraints
  rw [splitTableBody_createTable h, List.foldl_append, List.foldl_append, foldl_empty fun _ => rfl,
    foldl_columns (fun mapped hmapped => parseCheck_column (h.columns mapped hmapped) _) _
      table.nodup hcolumns, tableTexts, List.foldl_append, hkey,
    hchecks table.checks fun _ hcheck => hcheck]
  intro mapped column
  unfold MappedColumn.declareCheck
  split <;> rfl

end Parsers

/-! ## The round trip -/

/-- A text less the blanks around it. -/
def trimmedText (text : String) : String := String.ofList (trimSqlView text.toList)

/-- A column of the database with the constraints that a member declares, and all else as it is. -/
def MappedColumn.declare (mapped : MappedColumn) (column : DatabaseColumn) : DatabaseColumn :=
  let declared := expectedColumn sqliteDialect mapped
  { column with
    unique := declared.unique
    uniqueName := declared.uniqueName
    check := declared.check.map trimmedText
    references := declared.references.bind fun expected =>
      column.references.map fun references =>
        { references with name := expected.name, deferrable := expected.deferrable } }

/-- What the pragmas tell of a column: a bare reference where one is declared, and neither `UNIQUE`
    nor a check. -/
structure BareColumn (mapped : MappedColumn) (column : DatabaseColumn) : Prop where
  name : column.name = mapped.name
  unique : column.unique = false
  uniqueName : column.uniqueName = none
  check : column.check = none
  references : column.references.isSome = mapped.reference.isSome

/-- What the pragmas tell of a table. -/
structure BareTable (table : MappedTable) (database : DatabaseTable) : Prop where
  columns : List.Forall₂ BareColumn table.columns database.columns
  checks : database.checks = []

theorem declare_eq {mapped : MappedColumn} {column : DatabaseColumn} (h : BareColumn mapped column) :
    mapped.declareReference (mapped.declareCheck (mapped.declareUnique column)) =
      mapped.declare column := by
  obtain ⟨hname, hunique, huniqueName, hcheck, hreferences⟩ := h
  obtain ⟨name, type, notNull, unique, uniqueName, default, autoIncrement, references, check,
    comment⟩ := column
  dsimp only at hunique huniqueName hcheck hreferences
  subst hunique huniqueName hcheck
  unfold MappedColumn.declareReference MappedColumn.declareCheck MappedColumn.declareUnique
    MappedColumn.declare modifyReference expectedColumn expectedReference trimmedText
  cases mapped.unique <;> cases mapped.check <;> cases hreference : mapped.reference <;>
    cases references <;> simp_all

/-- A column of the database keeps its name. -/
theorem map_name_zipWith {change : MappedColumn → DatabaseColumn → DatabaseColumn}
    (hname : ∀ mapped column, (change mapped column).name = column.name)
    {mapped : List MappedColumn} {columns : List DatabaseColumn}
    (h : columns.map (·.name) = mapped.map (·.name)) :
    (List.zipWith change mapped columns).map (·.name) = mapped.map (·.name) := by
  induction mapped generalizing columns with
  | nil => simp
  | cons first mapped ih =>
    cases columns with
    | nil => exact absurd h (by simp)
    | cons column columns =>
      simp only [List.map_cons, List.cons.injEq] at h
      simp only [List.zipWith_cons_cons, List.map_cons, hname, h.1, ih h.2]

/-- The three parsers over the text that `create_table_sql` writes set, for each column, the
    declared `UNIQUE` and its name, the check less the blanks around it, and the name and the
    deferral of the reference; for the table, its checks in their order; and nothing else. -/
theorem create_table_round_trip (table : MappedTable) (h : table.Readable)
    (database : DatabaseTable) (hbare : BareTable table database) :
    let sql := (createTableSql sqliteDialect table).toList
    parseSqliteForeignKeyModifiers sql (parseSqliteCheckConstraints sql
        (parseSqliteUniqueConstraints sql database)) =
      { database with
        columns := List.zipWith MappedColumn.declare table.columns database.columns
        checks := (expectedTable sqliteDialect table).checks.map fun check =>
          { check with expression := trimmedText check.expression } } := by
  intro sql
  have hnames : database.columns.map (·.name) = table.columns.map (·.name) := by
    have hforall := hbare.columns
    generalize table.columns = mapped at hforall ⊢
    generalize database.columns = columns at hforall ⊢
    induction hforall with
    | nil => rfl
    | cons hcolumn _ ih => rw [List.map_cons, List.map_cons, hcolumn.name, ih]
  have hunique : ∀ mapped column, (MappedColumn.declareUnique mapped column).name = column.name := by
    intro mapped column
    unfold MappedColumn.declareUnique
    split <;> rfl
  have hcheck : ∀ mapped column, (MappedColumn.declareCheck mapped column).name = column.name := by
    intro mapped column
    unfold MappedColumn.declareCheck
    split <;> rfl
  have hcolumns : List.zipWith MappedColumn.declareReference table.columns
      (List.zipWith MappedColumn.declareCheck table.columns
        (List.zipWith MappedColumn.declareUnique table.columns database.columns)) =
      List.zipWith MappedColumn.declare table.columns database.columns := by
    have hforall := hbare.columns
    generalize table.columns = mapped at hforall ⊢
    generalize database.columns = columns at hforall ⊢
    induction hforall with
    | nil => rfl
    | cons hcolumn _ ih => simp only [List.zipWith_cons_cons, declare_eq hcolumn, ih]
  have hnames' := map_name_zipWith hunique hnames
  rw [parseUnique_createTable h hnames, parseCheck_createTable h hnames',
    parseReference_createTable h (map_name_zipWith hcheck hnames')]
  dsimp only
  rw [hcolumns, hbare.checks, List.nil_append]
  congr 1
  simp only [expectedTable, List.map_map]
  rfl

/-- A column with a name, a `UNIQUE`, a default and a reference that are hard to read. -/
def adversarialColumn : MappedColumn where
  name := "a\" UNIQUE, (["
  type := .integral 8
  optional := true
  databaseType := none
  primaryKey := false
  generated := false
  unique := some (some "CONSTRAINT")
  default := some (.text "', UNIQUE (")
  check := some " a "
  reference := some {
    table := "t"
    column := "CHECK ("
    onDelete := .setNull
    onUpdate := .unspecified
    constraintName := "REFERENCES"
    deferrable := true }

/-- A table of this column, with a check. -/
def adversarialTable : MappedTable where
  name := "t (\""
  columns := [adversarialColumn]
  checks := [{ name := some "UNIQUE", expression := "a" }]
  nodup := by decide

/-- What the pragmas tell of the column. -/
def adversarialPragmas : DatabaseColumn where
  name := "a\" UNIQUE, (["
  type := "INTEGER"
  defaultValue := some "''', UNIQUE ('"
  references := some { table := "t", column := "CHECK (", onDelete := some "SET NULL" }

theorem create_table_round_trip_adversarial :
    let sql := (createTableSql sqliteDialect adversarialTable).toList
    parseSqliteForeignKeyModifiers sql (parseSqliteCheckConstraints sql
        (parseSqliteUniqueConstraints sql
          { name := "t (\"", columns := [adversarialPragmas] })) =
      { name := "t (\""
        columns := [adversarialColumn.declare adversarialPragmas]
        checks := [{ name := some "UNIQUE", expression := trimmedText "a" }] } := by
  have hletter : ∀ ch ∈ ['a'], sqlIdentifierChar ch = true := by
    intro ch hch
    obtain rfl : ch = 'a' := by simpa using hch
    decide
  have hword : Balanced "a".toList := by
    have h := @Plain.word (fun _ => False) ['a'] [] (by decide) hletter (by simp) not_false .nil
    exact h
  have hcheck : Balanced " a ".toList :=
    plain_space not_false (@Plain.word _ ['a'] [' '] (by decide) hletter
      (separated_cons (by decide) []).not_identifierChar not_false (plain_space not_false .nil))
  have hcolumn : adversarialColumn.Readable :=
    { type := fun type h => by simp [adversarialColumn] at h
      sql := fun expression h => by simp [adversarialColumn] at h
      real := fun text h => by simp [adversarialColumn] at h
      check := fun expression h => by
        obtain rfl := Option.some.inj h
        exact hcheck }
  have hreadable : adversarialTable.Readable :=
    { columns := fun column hmem => by
        obtain rfl : column = adversarialColumn := by simpa [adversarialTable] using hmem
        exact hcolumn
      checks := fun check hmem => by
        obtain rfl : check = { name := some "UNIQUE", expression := "a" } := by
          simpa [adversarialTable] using hmem
        exact hword }
  exact create_table_round_trip adversarialTable hreadable _
    ⟨.cons ⟨rfl, rfl, rfl, rfl, rfl⟩ .nil, rfl⟩

end MetalOrm.Native.Ddl
