import MetalOrm.Native.CreateTable
import MetalOrm.Spec.SqlSearch

/-!
# The texts of a `CREATE TABLE`

What `create_table_sql` writes is made of plain texts: quoted names, words in capital letters, and
the types, defaults and checks of the mapping as they were declared.

## Key results

- `columnSql_toList`: the parts of the text for a column
- `plain_typePart`, `plain_uniquePart`, `plain_defaultPart`, `plain_checkPart`,
  `plain_referencePart`: where they are plain
-/

namespace MetalOrm.Native.Ddl

open Query (sqliteDialect quoteAnsiIdentifier)

/-! ## Words -/

instance (keyword : String) : Decidable (IsKeyword keyword) :=
  decidable_of_iff (keyword.toList ≠ [] ∧ keyword.toList.all sqlIdentifierChar = true ∧
      keyword.toList.map Char.toUpper = keyword.toList)
    ⟨fun ⟨nonempty, identifier, upper⟩ => ⟨nonempty, List.all_eq_true.mp identifier, upper⟩,
      fun h => ⟨h.nonempty, List.all_eq_true.mpr h.identifier, h.upper⟩⟩

instance (keyword : String) (token : List Char) : Decidable (IsWord keyword token) :=
  inferInstanceAs (Decidable (token = keyword.toList))

instance (token : List Char) : Decidable (IsComma token) :=
  inferInstanceAs (Decidable (token = [',']))

/-- The tokens that begin a constraint or a segment. -/
def Constrained (token : List Char) : Prop :=
  token ∈ [",", "CONSTRAINT", "UNIQUE", "CHECK", "REFERENCES"].map String.toList

instance (token : List Char) : Decidable (Constrained token) :=
  inferInstanceAs (Decidable (token ∈ _))

theorem constrained_comma : ∀ token, IsComma token → Constrained token := by
  rintro token rfl
  decide

theorem constrained_word {keyword : String}
    (h : keyword ∈ ["CONSTRAINT", "UNIQUE", "CHECK", "REFERENCES"]) :
    ∀ token, IsWord keyword token → Constrained token := by
  rintro token rfl
  exact List.mem_map_of_mem (List.mem_cons_of_mem _ h)

/-- Words with a space before each. -/
def spaced (words : List String) : List Char := words.flatMap fun word => ' ' :: word.toList

theorem separated_spaced (words : List String) : Separated (spaced words) := by
  cases words with
  | nil => exact separated_nil
  | cons word words => exact separated_cons (by decide) _

theorem plain_space {bad : List Char → Prop} (hspace : ¬bad [' ']) {rest : List Char}
    (h : Plain bad rest) : Plain bad (' ' :: rest) :=
  .char (by decide) (by decide) hspace h

theorem plain_word {bad : List Char → Prop} (word : String) (hword : IsKeyword word)
    (hgood : ¬bad word.toList) {rest : List Char} (hrest : Plain bad rest)
    (hseparated : Separated rest) : Plain bad (word.toList ++ rest) := by
  refine .word hword.nonempty hword.identifier hseparated.not_identifierChar ?_ hrest
  rw [hword.upper]
  exact hgood

theorem plain_spaced {bad : List Char → Prop} (hspace : ¬bad [' ']) {words : List String}
    (h : ∀ word ∈ words, IsKeyword word ∧ ¬bad word.toList) : Plain bad (spaced words) := by
  induction words with
  | nil => exact .nil
  | cons word words ih =>
    obtain ⟨⟨hword, hgood⟩, hwords⟩ := List.forall_mem_cons.mp h
    exact plain_space hspace (plain_word word hword hgood (ih hwords) (separated_spaced words))

/-! ## Names -/

/-- A name in quotes. -/
def quotedName (name : String) : List Char := '"' :: (doubled '"' name.toList ++ ['"'])

theorem quoteAnsiIdentifier_toList (name : String) :
    (quoteAnsiIdentifier name).toList = quotedName name := by
  simp [quoteAnsiIdentifier, quotedName, doubled]

theorem quotedName_append (name : String) (rest : List Char) :
    quotedName name ++ rest = '"' :: (doubled '"' name.toList ++ '"' :: rest) := by
  simp [quotedName]

theorem plain_quotedName (bad : List Char → Prop) (name : String) :
    Plain bad (quotedName name) := by
  have hname : Silent (quotedName name) ([] : List Char).head? :=
    .quoted (by decide) name.toList (by simp)
  have h := Plain.silent hname (@Plain.nil bad)
  rwa [List.append_nil] at h

/-- `CONSTRAINT` and a name, where there is one. -/
def naming : Option String → List Char
  | none => []
  | some name => spaced ["CONSTRAINT"] ++ ' ' :: quotedName name

theorem separated_naming (name : Option String) : Separated (naming name) := by
  cases name with
  | none => exact separated_nil
  | some name => exact separated_cons (by decide) _

theorem plain_naming {bad : List Char → Prop} (hspace : ¬bad [' '])
    (hgood : ¬bad "CONSTRAINT".toList) (name : Option String) : Plain bad (naming name) := by
  cases name with
  | none => exact .nil
  | some name =>
    have hconstraint : Plain bad (spaced ["CONSTRAINT"]) :=
      plain_spaced hspace (by simpa using ⟨by decide, hgood⟩)
    exact hconstraint.append (plain_space hspace (plain_quotedName bad name))
      (separated_cons (by decide) _)

/-! ## Values -/

/-- A text in quotes, as `quote_sql_text` writes it. -/
theorem plain_quoteSqlText (bad : List Char → Prop) (value : String) :
    Plain bad (quoteSqlText value).toList := by
  have htext : (quoteSqlText value).toList = '\'' :: (doubled '\'' value.toList ++ ['\'']) := by
    simp [quoteSqlText, doubled]
  have hvalue : Silent ('\'' :: (doubled '\'' value.toList ++ ['\''])) ([] : List Char).head? :=
    .quoted (by decide) value.toList (by simp)
  have h := Plain.silent hvalue (@Plain.nil bad)
  rwa [List.append_nil, ← htext] at h

theorem toUpper_of_isDigit {ch : Char} (h : ch.isDigit = true) : ch.toUpper = ch := by
  unfold Char.toUpper
  rw [dif_neg]
  rintro ⟨hlower, _⟩
  simp only [Char.isDigit, Bool.and_eq_true, decide_eq_true_eq] at h
  have := UInt32.le_trans hlower h.2
  exact absurd this (by decide)

/-- A number. -/
theorem plain_natural (value : Nat) : Plain Constrained value.repr.toList := by
  rw [Nat.toList_repr]
  have hdigit : ∀ ch ∈ Nat.toDigits 10 value, ch.isDigit = true :=
    fun ch hch => Nat.isDigit_of_mem_toDigits (by decide) (by decide) hch
  have hnonempty : Nat.toDigits 10 value ≠ [] := by
    intro h
    have := @Nat.length_toDigits_pos 10 value
    rw [h] at this
    exact absurd this (by decide)
  have hidentifier : ∀ ch ∈ Nat.toDigits 10 value, sqlIdentifierChar ch = true := by
    intro ch hch
    simp [sqlIdentifierChar, Char.isAlphanum, hdigit ch hch]
  have hupper : (Nat.toDigits 10 value).map Char.toUpper = Nat.toDigits 10 value := by
    conv_rhs => rw [← List.map_id (Nat.toDigits 10 value)]
    exact List.map_congr_left fun ch hch => toUpper_of_isDigit (hdigit ch hch)
  -- no word among the constraints begins with a digit
  have hgood : ¬Constrained (Nat.toDigits 10 value) := by
    intro hbad
    simp only [Constrained, List.map_cons, List.map_nil, List.mem_cons, List.not_mem_nil,
      or_false] at hbad
    have hall := List.all_eq_true.mpr hdigit
    obtain h | h | h | h | h := hbad <;> (rw [h] at hall; revert hall; decide)
  have h := @Plain.word _ _ [] hnonempty hidentifier (by simp) (by rwa [hupper])
    Plain.nil
  rwa [List.append_nil] at h

/-- An integer. -/
theorem plain_integer (value : Int) : Plain Constrained (toString value).toList := by
  show Plain Constrained value.repr.toList
  rw [Int.repr_eq_if]
  split
  · exact plain_natural value.toNat
  · rw [String.toList_append]
    refine .operator (.inl ⟨rfl, ?_⟩) (by decide) (plain_natural (-value).toNat)
    intro hhead
    rw [Nat.toList_repr] at hhead
    have := @Nat.isDigit_of_mem_toDigits 10 _ _ (by decide) (by decide)
      (List.mem_of_head? hhead)
    exact absurd this (by decide)

/-! ## The parts of a column -/

/-- The type of a column and what follows it before the constraints. -/
def typePart (pkCount : Nat) (column : MappedColumn) : String :=
  " " ++ columnTypeName sqliteDialect column ++
  (if column.primaryKey && pkCount = 1 then " PRIMARY KEY" else "") ++
  (if column.generated then " AUTOINCREMENT" else "") ++
  (if !column.optional && (!column.primaryKey || pkCount > 1) then " NOT NULL" else "")

/-- The `UNIQUE` of a column. -/
def uniquePart (column : MappedColumn) : String :=
  match column.unique with
  | some name => columnUniqueSql sqliteDialect name
  | none => ""

/-- The default of a column. -/
def defaultPart (column : MappedColumn) : String :=
  match column.default with
  | some value => " DEFAULT " ++ columnDefaultSql value
  | none => ""

/-- The check of a column. -/
def checkPart (column : MappedColumn) : String :=
  match column.check with
  | some expression => columnCheckSql expression
  | none => ""

/-- The reference of a column. -/
def referencePart (column : MappedColumn) : String :=
  match column.reference with
  | some reference => physicalReferenceSql sqliteDialect reference
  | none => ""

theorem columnSql_toList (pkCount : Nat) (column : MappedColumn) :
    (columnSql sqliteDialect pkCount column).toList =
      quotedName column.name ++ ((typePart pkCount column).toList ++
        ((uniquePart column).toList ++ ((defaultPart column).toList ++
          ((checkPart column).toList ++ (referencePart column).toList)))) := by
  have hidentity : (if column.generated && sqliteDialect.family = .postgres then
      " GENERATED BY DEFAULT AS IDENTITY" else "") = "" := by
    rw [if_neg]
    simp [sqliteDialect]
  have hautoincrement : (if column.generated && sqliteDialect.family ≠ .postgres then
      " AUTOINCREMENT" else "") = if column.generated then " AUTOINCREMENT" else "" := by
    simp [sqliteDialect]
  have htext : columnSql sqliteDialect pkCount column = quoteAnsiIdentifier column.name ++
      (typePart pkCount column ++ (uniquePart column ++ (defaultPart column ++
        (checkPart column ++ referencePart column)))) := by
    unfold columnSql typePart uniquePart defaultPart checkPart referencePart
    rw [hidentity, hautoincrement]
    simp only [String.append_assoc, String.append_empty]
    rfl
  rw [htext]
  simp only [String.toList_append, quoteAnsiIdentifier_toList]

/-- The words of a referential action. -/
def ReferentialAction.words (event : String) : ReferentialAction → List String
  | .noAction => ["ON", event, "NO", "ACTION"]
  | .restrict => ["ON", event, "RESTRICT"]
  | .cascade => ["ON", event, "CASCADE"]
  | .setNull => ["ON", event, "SET", "NULL"]
  | .setDefault => ["ON", event, "SET", "DEFAULT"]
  | .unspecified => []

/-- What follows the word `REFERENCES`, less the last clause. -/
def referenceTarget (reference : ReferenceAnnotation) : List Char :=
  ' ' :: (quotedName reference.table ++ ' ' :: '(' :: (quotedName reference.column ++ ')' ::
    (spaced (reference.onDelete.words "DELETE") ++ spaced (reference.onUpdate.words "UPDATE"))))

/-- The last clause of a reference. -/
def deferral (reference : ReferenceAnnotation) : List Char :=
  if reference.deferrable then spaced ["DEFERRABLE", "INITIALLY", "DEFERRED"] else []

/-- A text that is empty, or has a name. -/
theorem naming_optionalText (name : String) :
    (if name.isEmpty then "" else " CONSTRAINT " ++ quoteAnsiIdentifier name).toList =
      naming (optionalText name) := by
  unfold optionalText
  split
  · rfl
  · rw [String.toList_append, quoteAnsiIdentifier_toList]
    rfl

theorem physicalReferenceSql_toList (reference : ReferenceAnnotation) :
    (physicalReferenceSql sqliteDialect reference).toList =
      naming (optionalText reference.constraintName) ++
        ' ' :: ("REFERENCES".toList ++ (referenceTarget reference ++ deferral reference)) := by
  have hdelete : (if reference.onDelete.sql.isEmpty then "" else
      " ON DELETE " ++ reference.onDelete.sql).toList =
        spaced (reference.onDelete.words "DELETE") := by
    cases reference.onDelete <;> decide
  have hupdate : (if reference.onUpdate.sql.isEmpty then "" else
      " ON UPDATE " ++ reference.onUpdate.sql).toList =
        spaced (reference.onUpdate.words "UPDATE") := by
    cases reference.onUpdate <;> decide
  have hdeferral : (if reference.deferrable then " DEFERRABLE INITIALLY DEFERRED" else "").toList =
      deferral reference := by
    unfold deferral
    cases reference.deferrable <;> decide
  have hnaming := naming_optionalText reference.constraintName
  have hreferences : " REFERENCES ".toList = ' ' :: ("REFERENCES".toList ++ [' ']) := by decide
  have hopen : " (".toList = [' ', '('] := by decide
  have hclose : ")".toList = [')'] := by decide
  unfold physicalReferenceSql
  simp only [String.toList_append, sqliteDialect, quoteAnsiIdentifier_toList, hdelete, hupdate,
    hdeferral, hnaming, hreferences, hopen, hclose, referenceTarget]
  simp only [List.append_assoc, List.cons_append, List.nil_append]

/-! ## Where the parts are plain -/

/-- What the mapping may declare for a column: types and defaults in which no constraint begins,
    and a check that closes what it opens. -/
structure MappedColumn.Readable (column : MappedColumn) : Prop where
  type : ∀ type, column.databaseType = some type → Plain Constrained type.toList
  sql : ∀ expression, column.default = some (.sql expression) → Plain Constrained expression.toList
  real : ∀ text, column.default = some (.real text) → Plain Constrained text.toList
  check : ∀ expression, column.check = some expression → Balanced expression.toList

theorem plain_columnType {column : MappedColumn} (h : column.Readable) :
    Plain Constrained (columnTypeName sqliteDialect column).toList := by
  cases htype : column.databaseType with
  | some type =>
    have hname : columnTypeName sqliteDialect column = type := by simp [columnTypeName, htype]
    rw [hname]
    exact h.type type htype
  | none =>
    have hname : columnTypeName sqliteDialect column = sqliteTypeName column.type := by
      simp [columnTypeName, htype, sqliteDialect]
    have hword : ∀ word ∈ ["INTEGER", "REAL", "TEXT", "BLOB"],
        IsKeyword word ∧ ¬Constrained word.toList := by decide
    have hmem : sqliteTypeName column.type ∈ ["INTEGER", "REAL", "TEXT", "BLOB"] := by
      cases column.type <;> simp [sqliteTypeName]
    obtain ⟨hkeyword, hgood⟩ := hword _ hmem
    have hplain := plain_word _ hkeyword hgood .nil separated_nil
    rwa [List.append_nil, ← hname] at hplain

/-- Words that may stand in a column, where there are any. -/
theorem plain_words (condition : Prop) [Decidable condition] {text : String} (words : List String)
    (htext : text.toList = spaced words)
    (hwords : ∀ word ∈ words, IsKeyword word ∧ ¬Constrained word.toList) :
    Plain Constrained (if condition then text else "").toList ∧
      Separated (if condition then text else "").toList := by
  split
  · rw [htext]
    exact ⟨plain_spaced (by decide) hwords, separated_spaced words⟩
  · exact ⟨.nil, separated_nil⟩

theorem plain_typePart {column : MappedColumn} (h : column.Readable) (pkCount : Nat) :
    Plain Constrained (typePart pkCount column).toList := by
  obtain ⟨hkey, hkey'⟩ := plain_words (column.primaryKey && pkCount = 1) ["PRIMARY", "KEY"]
    (by decide : " PRIMARY KEY".toList = _) (by decide)
  obtain ⟨hauto, hauto'⟩ := plain_words column.generated ["AUTOINCREMENT"]
    (by decide : " AUTOINCREMENT".toList = _) (by decide)
  obtain ⟨hnull, hnull'⟩ := plain_words (!column.optional && (!column.primaryKey || pkCount > 1))
    ["NOT", "NULL"] (by decide : " NOT NULL".toList = _) (by decide)
  unfold typePart
  simp only [String.toList_append]
  exact (((plain_space (by decide) (plain_columnType h)).append hkey hkey').append hauto
    hauto').append hnull hnull'

theorem separated_typePart (pkCount : Nat) (column : MappedColumn) :
    Separated (typePart pkCount column).toList := by
  unfold typePart
  simp only [String.toList_append, List.append_assoc]
  exact separated_cons (by decide) _

/-- `UNIQUE` is written as a name and a word. -/
theorem columnUniqueSql_toList (name : Option String) :
    (columnUniqueSql sqliteDialect name).toList = naming name ++ ' ' :: "UNIQUE".toList := by
  have hunique : " UNIQUE".toList = ' ' :: "UNIQUE".toList := by decide
  cases name with
  | none => exact hunique
  | some name =>
    show (" CONSTRAINT " ++ quoteAnsiIdentifier name ++ " UNIQUE").toList = _
    rw [String.toList_append, String.toList_append, quoteAnsiIdentifier_toList, hunique]
    rfl

theorem plain_uniquePart {bad : List Char → Prop} (hspace : ¬bad [' '])
    (hconstraint : ¬bad "CONSTRAINT".toList) (hunique : ¬bad "UNIQUE".toList)
    (column : MappedColumn) : Plain bad (uniquePart column).toList := by
  unfold uniquePart
  split
  · rename_i name _
    have hword := plain_word "UNIQUE" (by decide) hunique .nil separated_nil
    rw [List.append_nil] at hword
    rw [columnUniqueSql_toList]
    exact (plain_naming hspace hconstraint name).append (plain_space hspace hword)
      (separated_cons (by decide) _)
  · exact .nil

theorem separated_uniquePart (column : MappedColumn) : Separated (uniquePart column).toList := by
  unfold uniquePart
  split
  · rename_i name _
    rw [columnUniqueSql_toList]
    exact (separated_naming name).append (separated_cons (by decide) _)
  · exact separated_nil

theorem plain_defaultPart {column : MappedColumn} (h : column.Readable) :
    Plain Constrained (defaultPart column).toList := by
  unfold defaultPart
  split
  · rename_i value hvalue
    have hword : " DEFAULT ".toList = ' ' :: ("DEFAULT".toList ++ [' ']) := by decide
    have hplain : Plain Constrained (columnDefaultSql value).toList := by
      cases value with
      | text value => exact plain_quoteSqlText Constrained value
      | sql expression => exact h.sql expression hvalue
      | null =>
        have hnull := plain_word "NULL" (by decide) (by decide : ¬Constrained _) .nil
          separated_nil
        rwa [List.append_nil] at hnull
      | boolean value =>
        cases value
        · exact plain_natural 0
        · exact plain_natural 1
      | integer value => exact plain_integer value
      | real text => exact h.real text hvalue
    rw [String.toList_append, hword, List.cons_append, List.append_assoc]
    exact plain_space (by decide) (plain_word _ (by decide) (by decide)
      (plain_space (by decide) hplain) (separated_cons (by decide) _))
  · exact .nil

theorem separated_defaultPart (column : MappedColumn) :
    Separated (defaultPart column).toList := by
  unfold defaultPart
  split
  · rw [String.toList_append]
    exact separated_cons (by decide) _
  · exact separated_nil

/-- A check is written as a word and a group. -/
theorem columnCheckSql_toList (expression : String) :
    (columnCheckSql expression).toList =
      ' ' :: ("CHECK".toList ++ ' ' :: '(' :: (expression.toList ++ [')'])) := by
  simp [columnCheckSql]

/-- A group that ends the text. -/
theorem plain_group {bad : List Char → Prop} {inner : List Char} (h : Balanced inner) :
    Plain bad ('(' :: (inner ++ [')'])) :=
  .group h .nil

theorem plain_checkPart {bad : List Char → Prop} (hspace : ¬bad [' '])
    (hcheck : ¬bad "CHECK".toList) {column : MappedColumn} (h : column.Readable) :
    Plain bad (checkPart column).toList := by
  unfold checkPart
  split
  · rename_i expression hexpression
    rw [columnCheckSql_toList]
    exact plain_space hspace (plain_word _ (by decide) hcheck
      (plain_space hspace (plain_group (h.check expression hexpression)))
      (separated_cons (by decide) _))
  · exact .nil

theorem separated_checkPart (column : MappedColumn) : Separated (checkPart column).toList := by
  unfold checkPart
  split
  · rw [columnCheckSql_toList]
    exact separated_cons (by decide) _
  · exact separated_nil

/-- The words of a referential action are no keyword of the parsers. -/
theorem plain_actionWords {bad : List Char → Prop} (hspace : ¬bad [' '])
    (hgood : ∀ word ∈ ["ON", "DELETE", "UPDATE", "NO", "ACTION", "RESTRICT", "CASCADE", "SET",
      "NULL", "DEFAULT"], ¬bad word.toList) (event : String) (hevent : event ∈ ["DELETE", "UPDATE"])
    (action : ReferentialAction) : Plain bad (spaced (action.words event)) := by
  apply plain_spaced hspace
  intro word hword
  have hmem : word ∈ ["ON", "DELETE", "UPDATE", "NO", "ACTION", "RESTRICT", "CASCADE", "SET",
      "NULL", "DEFAULT"] := by
    simp only [List.mem_cons, List.not_mem_nil, or_false] at hevent
    obtain rfl | rfl := hevent <;> cases action <;>
      simp only [ReferentialAction.words, List.mem_cons, List.not_mem_nil, or_false] at hword ⊢ <;>
      tauto
  have hkeyword : ∀ word ∈ ["ON", "DELETE", "UPDATE", "NO", "ACTION", "RESTRICT", "CASCADE", "SET",
      "NULL", "DEFAULT"], IsKeyword word := by decide
  exact ⟨hkeyword word hmem, hgood word hmem⟩

theorem plain_referenceTarget {bad : List Char → Prop} (hspace : ¬bad [' '])
    (hgood : ∀ word ∈ ["ON", "DELETE", "UPDATE", "NO", "ACTION", "RESTRICT", "CASCADE", "SET",
      "NULL", "DEFAULT"], ¬bad word.toList) (reference : ReferenceAnnotation) :
    Plain bad (referenceTarget reference) := by
  have hdelete := plain_actionWords hspace hgood "DELETE" (by simp) reference.onDelete
  have hupdate := plain_actionWords hspace hgood "UPDATE" (by simp) reference.onUpdate
  have hgroup : Plain bad ('(' :: (quotedName reference.column ++ ')' ::
      (spaced (reference.onDelete.words "DELETE") ++
        spaced (reference.onUpdate.words "UPDATE")))) :=
    .group (plain_quotedName _ _) (hdelete.append hupdate (separated_spaced _))
  exact plain_space hspace ((plain_quotedName bad _).append (plain_space hspace hgroup)
    (separated_cons (by decide) _))

theorem separated_referenceTarget (reference : ReferenceAnnotation) :
    Separated (referenceTarget reference) :=
  separated_cons (by decide) _

theorem separated_deferral (reference : ReferenceAnnotation) : Separated (deferral reference) := by
  unfold deferral
  split
  · exact separated_spaced _
  · exact separated_nil

theorem plain_deferral {bad : List Char → Prop} (hspace : ¬bad [' '])
    (hgood : ∀ word ∈ ["DEFERRABLE", "INITIALLY", "DEFERRED"], ¬bad word.toList)
    (reference : ReferenceAnnotation) : Plain bad (deferral reference) := by
  have hkeyword : ∀ word ∈ ["DEFERRABLE", "INITIALLY", "DEFERRED"], IsKeyword word := by decide
  unfold deferral
  split
  · exact plain_spaced hspace fun word hword => ⟨hkeyword word hword, hgood word hword⟩
  · exact .nil

/-- All the words of a reference. -/
def referenceWords : List String :=
  ["CONSTRAINT", "REFERENCES", "ON", "DELETE", "UPDATE", "NO", "ACTION", "RESTRICT", "CASCADE",
    "SET", "NULL", "DEFAULT", "DEFERRABLE", "INITIALLY", "DEFERRED"]

theorem plain_referencePart {bad : List Char → Prop} (hspace : ¬bad [' '])
    (hgood : ∀ word ∈ referenceWords, ¬bad word.toList) (column : MappedColumn) :
    Plain bad (referencePart column).toList := by
  unfold referenceWords at hgood
  unfold referencePart
  split
  · rename_i reference _
    have htarget := plain_referenceTarget hspace
      (fun word hword => hgood word (by simp only [List.mem_cons] at hword ⊢; tauto)) reference
    have hdeferral := plain_deferral hspace
      (fun word hword => hgood word (by simp only [List.mem_cons] at hword ⊢; tauto)) reference
    have hword := plain_word "REFERENCES" (by decide) (hgood _ (by simp))
      (htarget.append hdeferral (separated_deferral reference))
      ((separated_referenceTarget reference).append (separated_deferral reference))
    rw [physicalReferenceSql_toList]
    exact (plain_naming hspace (hgood _ (by simp)) _).append (plain_space hspace hword)
      (separated_cons (by decide) _)
  · exact .nil

theorem separated_referencePart (column : MappedColumn) :
    Separated (referencePart column).toList := by
  unfold referencePart
  split
  · rw [physicalReferenceSql_toList]
    exact (separated_naming _).append (separated_cons (by decide) _)
  · exact separated_nil

end MetalOrm.Native.Ddl
