import MetalOrm.Spec.SqlScan

/-!
# What the scanners find

In a text that is made of plain parts: the keyword that stands between them, the parenthesis that
closes a group, the name in quotes; and the segments of the body of a table, whose commas stand
between plain texts.

## Key results

- `find_plain`, `find_word`, `find_trimmed`: what `find_sql_keyword_top_level` finds
- `matchingParen_group`: what `find_sql_matching_paren` finds
- `readSqlIdentifier_quoted`: what `read_sql_identifier` reads
- `splitTableBody_joined`: what `split_sqlite_table_body` splits
-/

namespace MetalOrm.Native.Ddl

/-! ## `find_sql_keyword_top_level` -/

/-- A word in capital letters. -/
structure IsKeyword (keyword : String) : Prop where
  nonempty : keyword.toList ≠ []
  identifier : ∀ ch ∈ keyword.toList, sqlIdentifierChar ch = true
  upper : keyword.toList.map Char.toUpper = keyword.toList

/-- The word itself, as a token. -/
def IsWord (keyword : String) (token : List Char) : Prop := token = keyword.toList

theorem sqlIdentifierChar_of_toUpper {ch : Char} (h : sqlIdentifierChar ch.toUpper = true) :
    sqlIdentifierChar ch = true := by
  unfold Char.toUpper at h
  split at h
  · rename_i hlower
    have : ch.isLower = true := by
      simpa [Char.isLower] using hlower
    simp [sqlIdentifierChar, Char.isAlphanum, Char.isAlpha, this]
  · exact h

/-- `sql_keyword_at` finds a keyword as a whole word. -/
theorem wordAt_of_keywordAt {c : Cursor} {keyword : String} (hkeyword : IsKeyword keyword)
    (h : sqlKeywordAt c keyword = true) :
    c.prev.any sqlIdentifierChar = false ∧ wordAt c = keyword.toList := by
  unfold sqlKeywordAt at h
  split at h
  · exact absurd h Bool.false_ne_true
  · rename_i hlength
    split at h
    · exact absurd h Bool.false_ne_true
    · rename_i hprev
      split at h
      · exact absurd h Bool.false_ne_true
      · rename_i hnext
        have htake : (c.rest.take keyword.toList.length).map Char.toUpper = keyword.toList := by
          rw [← hkeyword.upper]
          simpa using h
        have hword : ∀ ch ∈ c.rest.take keyword.toList.length, sqlIdentifierChar ch = true := by
          intro ch hch
          apply sqlIdentifierChar_of_toUpper
          apply hkeyword.identifier
          rw [← htake]
          exact List.mem_map_of_mem hch
        have hnext' : ∀ ch ∈ (c.rest.drop keyword.toList.length).head?,
            sqlIdentifierChar ch = false := by
          intro ch hch
          rw [hch] at hnext
          simpa using hnext
        have heq := wordAt_eq hword hnext' c.pos c.prev
        rw [List.take_append_drop, htake] at heq
        exact ⟨by simpa using hprev, heq⟩

/-- A keyword that stands as a word. -/
theorem keywordAt_of_word (keyword : String) (pos : Nat) {prev : Option Char} {rest : List Char}
    (hprev : prev.any sqlIdentifierChar = false)
    (hrest : ∀ ch ∈ rest.head?, sqlIdentifierChar ch = false) :
    sqlKeywordAt ⟨pos, prev, keyword.toList ++ rest⟩ keyword = true := by
  have hnext : rest.head?.any sqlIdentifierChar = false := by
    cases rest with
    | nil => rfl
    | cons ch rest => exact hrest ch rfl
  simp [sqlKeywordAt, hprev, hnext]

theorem keywordStep_topLevel {keyword : String} (hkeyword : IsKeyword keyword) :
    TopLevel (IsWord keyword) (keywordStep keyword) id where
  opening d c := rfl
  closing d c := rfl
  leaving c := rfl
  other d c ch hopen hclose := by
    simp [keywordStep, hopen, hclose]
  symbol c ch hch hopen hclose hother hgood := by
    have hnot : sqlKeywordAt c keyword = false := by
      cases hfound : sqlKeywordAt c keyword with
      | false => rfl
      | true =>
        have hword := (wordAt_of_keywordAt hkeyword hfound).2
        obtain ⟨pos, prev, rest⟩ := c
        cases rest with
        | nil => exact absurd hch (by simp)
        | cons first rest =>
          obtain rfl : first = ch := by simpa using hch
          simp only [wordAt, List.takeWhile_cons, hother] at hword
          exact absurd hword.symm hkeyword.nonempty
    simp [keywordStep, hopen, hclose, hnot]
  word c ch hch hidentifier hgood := by
    have hparen := ordinary_ne_paren (ordinary_of_identifierChar hidentifier)
    have hnot : sqlKeywordAt c keyword = false := by
      cases hfound : sqlKeywordAt c keyword with
      | false => rfl
      | true =>
        obtain ⟨hprev, hword⟩ := wordAt_of_keywordAt hkeyword hfound
        obtain hinside | hother := hgood
        · rw [hprev] at hinside
          exact absurd hinside Bool.false_ne_true
        · exact absurd hword hother
    simp [keywordStep, hparen, hnot]

section Find

variable {keyword : String} (hkeyword : IsKeyword keyword)

include hkeyword in
/-- The keyword is looked for after a text in which it does not stand. -/
theorem find_plain {text rest : List Char} (h : Plain (IsWord keyword) text)
    (hrest : Separated rest) (pos : Nat) (prev : Option Char) :
    findSqlKeywordTopLevel ⟨pos, prev, text ++ rest⟩ keyword =
      findSqlKeywordTopLevel ⟨pos + text.length, lastOf text prev, rest⟩ keyword := by
  have hscan := scan_plain (keywordStep_topLevel hkeyword) h hrest pos prev
  simp only [id] at hscan
  unfold findSqlKeywordTopLevel
  dsimp only
  rw [hscan]

include hkeyword in
/-- The keyword does not stand in the text. -/
theorem find_none {text : List Char} (h : Plain (IsWord keyword) text) (pos : Nat)
    (prev : Option Char) : findSqlKeywordTopLevel ⟨pos, prev, text⟩ keyword = none := by
  have hend := find_plain hkeyword h separated_nil pos prev
  rw [List.append_nil] at hend
  rw [hend]
  rfl

include hkeyword in
/-- The keyword stands where it is looked for. -/
theorem find_word (pos : Nat) {prev : Option Char} {rest : List Char}
    (hprev : prev.any sqlIdentifierChar = false)
    (hrest : ∀ ch ∈ rest.head?, sqlIdentifierChar ch = false) :
    findSqlKeywordTopLevel ⟨pos, prev, keyword.toList ++ rest⟩ keyword =
      some ⟨pos, prev, keyword.toList ++ rest⟩ := by
  have hfound := keywordAt_of_word keyword pos hprev hrest
  obtain ⟨ch, word, hword⟩ := List.exists_cons_of_ne_nil hkeyword.nonempty
  have hidentifier : sqlIdentifierChar ch = true := hkeyword.identifier ch (by simp [hword])
  have hordinary := ordinary_of_identifierChar hidentifier
  have hparen := ordinary_ne_paren hordinary
  unfold findSqlKeywordTopLevel
  dsimp only
  rw [hword, List.cons_append] at hfound ⊢
  have hstep : keywordStep keyword 0 ⟨pos, prev, ch :: (word ++ rest)⟩ ch =
      .inr ⟨pos, prev, ch :: (word ++ rest)⟩ := by
    simp [keywordStep, hparen, hfound]
  rw [scanCode_cons_found (keywordStep keyword) (lexStep_ordinary hordinary _) hstep]

include hkeyword in
/-- The keyword is looked for after a space. -/
theorem find_space (pos : Nat) (prev : Option Char) (rest : List Char) :
    findSqlKeywordTopLevel ⟨pos, prev, ' ' :: rest⟩ keyword =
      findSqlKeywordTopLevel ⟨pos + 1, some ' ', rest⟩ keyword := by
  have hgood : ¬IsWord keyword [' '] := by
    intro h
    have hspace := hkeyword.identifier ' ' (by rw [← h]; simp)
    exact absurd hspace (by decide)
  have hstep : keywordStep keyword 0 ⟨pos, prev, ' ' :: rest⟩ ' ' = .inl 0 :=
    (keywordStep_topLevel hkeyword).symbol ⟨pos, prev, ' ' :: rest⟩ ' ' rfl (by decide) (by decide)
      (by decide) hgood
  unfold findSqlKeywordTopLevel
  dsimp only
  rw [scanCode_cons_code (keywordStep keyword) rfl hstep]

include hkeyword in
/-- The keyword that stands between a plain text and another one. -/
theorem find_after {text rest : List Char} (h : Plain (IsWord keyword) text)
    (hrest : ∀ ch ∈ rest.head?, sqlIdentifierChar ch = false) (pos : Nat) (prev : Option Char) :
    findSqlKeywordTopLevel ⟨pos, prev, text ++ ' ' :: (keyword.toList ++ rest)⟩ keyword =
      some ⟨pos + text.length + 1, some ' ', keyword.toList ++ rest⟩ := by
  rw [find_plain hkeyword h (separated_cons (by decide) _), find_space hkeyword,
    find_word hkeyword _ (by decide) hrest]

end Find

/-- What is found stands after the position where the search begins. -/
theorem find_pos_le {c found : Cursor} {keyword : String}
    (h : findSqlKeywordTopLevel c keyword = some found) : c.pos ≤ found.pos := by
  have hscan : ∀ text state skip depth pos prev,
      scanCode (keywordStep keyword) state skip depth pos prev text = .inr found →
        pos ≤ found.pos := by
    intro text
    induction text with
    | nil =>
      intro state skip depth pos prev h
      cases h
    | cons ch text ih =>
      intro state skip depth pos prev h
      rw [scanCode] at h
      split at h
      · have := ih _ _ _ _ _ h
        omega
      · split at h
        · have := ih _ _ _ _ _ h
          omega
        · split at h
          · have := ih _ _ _ _ _ h
            omega
          · rename_i hstep
            obtain rfl : _ = found := by simpa using h
            unfold keywordStep at hstep
            split_ifs at hstep
            obtain rfl := Sum.inr.inj hstep
            exact Nat.le_refl pos
  unfold findSqlKeywordTopLevel at h
  split at h
  · rename_i hfound
    obtain rfl := Option.some.inj h
    exact hscan _ _ _ _ _ _ hfound
  · cases h

theorem not_identifierChar_of_isSpace {ch : Char} (h : isSpace ch = true) :
    sqlIdentifierChar ch = false := by
  unfold isSpace at h
  simp only [List.mem_cons, List.not_mem_nil, or_false, decide_eq_true_eq] at h
  obtain rfl | rfl | rfl | rfl | rfl | rfl := h <;> decide

/-- A keyword is one also when blanks follow the text. -/
theorem keywordAt_append {pos : Nat} {prev : Option Char} {text blanks : List Char}
    (hblanks : ∀ ch ∈ blanks, isSpace ch = true) {keyword : String}
    (h : sqlKeywordAt ⟨pos, prev, text⟩ keyword = true) :
    sqlKeywordAt ⟨pos, prev, text ++ blanks⟩ keyword = true := by
  unfold sqlKeywordAt at h ⊢
  dsimp only at h ⊢
  split at h
  · exact absurd h Bool.false_ne_true
  · rename_i hlength
    have hle : keyword.toList.length ≤ text.length := by omega
    rw [if_neg (by rw [List.length_append]; omega), List.take_append_of_le_length hle,
      List.drop_append_of_le_length hle]
    split at h
    · exact absurd h Bool.false_ne_true
    · rename_i hprev
      rw [if_neg hprev]
      split at h
      · exact absurd h Bool.false_ne_true
      · rename_i hnext
        rw [if_neg]
        · exact h
        · cases hdrop : text.drop keyword.toList.length with
          | nil =>
            cases blanks with
            | nil => simp
            | cons ch blanks =>
              have := not_identifierChar_of_isSpace (hblanks ch (by simp))
              simp [this]
          | cons ch rest =>
            rw [hdrop] at hnext
            exact hnext

/-- What a step of the search finds, it finds also when blanks follow the text. -/
theorem keywordStep_append {keyword : String} {depth : Nat} {pos : Nat} {prev : Option Char}
    {ch : Char} {text blanks : List Char} (hblanks : ∀ ch ∈ blanks, isSpace ch = true) {s : Nat}
    (h : keywordStep keyword depth ⟨pos, prev, ch :: (text ++ blanks)⟩ ch = .inl s) :
    keywordStep keyword depth ⟨pos, prev, ch :: text⟩ ch = .inl s := by
  unfold keywordStep at h ⊢
  split_ifs at h ⊢ with hopen hclose hnarrow hwide
  · exact h
  · exact h
  · simp only [Bool.and_eq_true] at hnarrow hwide
    exact absurd ⟨hnarrow.1, keywordAt_append hblanks hnarrow.2⟩ hwide
  · exact h

/-- What is code before the end of the text is code before a blank. -/
theorem lexStep_blank {state : Lexed} {ch : Char} (h : lexStep state ch '\x00' = none)
    {next : Char} (hnext : isSpace next = true) : lexStep state ch next = none := by
  have hdash : next ≠ '-' := by
    rintro rfl
    exact absurd hnext (by decide)
  have hstar : next ≠ '*' := by
    rintro rfl
    exact absurd hnext (by decide)
  cases state with
  | code => simpa [lexStep, hdash, hstar] using h
  | _ => cases h

/-- What is not found is not found either when blanks at the end of the text are left out. -/
theorem find_trimmed {pos : Nat} {prev : Option Char} {text blanks : List Char}
    (hblanks : ∀ ch ∈ blanks, isSpace ch = true) {keyword : String}
    (h : findSqlKeywordTopLevel ⟨pos, prev, text ++ blanks⟩ keyword = none) :
    findSqlKeywordTopLevel ⟨pos, prev, text⟩ keyword = none := by
  have hscan : ∀ text state skip depth pos prev s,
      scanCode (keywordStep keyword) state skip depth pos prev (text ++ blanks) = .inl s →
        ∃ s', scanCode (keywordStep keyword) state skip depth pos prev text = .inl s' := by
    intro text
    induction text with
    | nil =>
      intro state skip depth pos prev s h
      exact ⟨depth, rfl⟩
    | cons ch text ih =>
      intro state skip depth pos prev s h
      rw [List.cons_append, scanCode] at h
      rw [scanCode]
      cases skip with
      | true => exact ih _ _ _ _ _ _ h
      | false =>
        rw [if_neg Bool.false_ne_true] at h ⊢
        -- the character after this one is the same, or there is none but blanks
        have hnone : lexStep state ch (text.headD '\x00') = none →
            lexStep state ch ((text ++ blanks).headD '\x00') = none := by
          intro hnone
          cases text with
          | cons next text => exact hnone
          | nil =>
            cases blanks with
            | nil => exact hnone
            | cons next blanks => exact lexStep_blank hnone (hblanks next (by simp))
        cases hlex : lexStep state ch (text.headD '\x00') with
        | none =>
          rw [hnone hlex] at h
          dsimp only at h ⊢
          split at h
          · rename_i hstep
            rw [keywordStep_append hblanks hstep]
            exact ih _ _ _ _ _ _ h
          · cases h
        | some next =>
          cases text with
          | nil => exact ⟨depth, rfl⟩
          | cons ch' text =>
            rw [List.cons_append, List.headD_cons] at h
            rw [List.headD_cons] at hlex
            rw [hlex] at h
            exact ih _ _ _ _ _ _ h
  unfold findSqlKeywordTopLevel at h ⊢
  split at h
  · cases h
  · rename_i hnone
    obtain ⟨s, hs⟩ := hscan _ _ _ _ _ _ _ hnone
    dsimp only at hs ⊢
    rw [hs]

/-! ## `find_sql_matching_paren` -/

theorem parenStep_nested : Nested parenStep id where
  opening d c := rfl
  closing d c := by simp [parenStep]
  other d c ch hopen hclose := by simp [parenStep, hopen, hclose]

theorem findSqlMatchingParen_open (pos : Nat) (prev : Option Char) (rest : List Char) :
    findSqlMatchingParen ⟨pos, prev, '(' :: rest⟩ =
      (scanCode parenStep .code false 1 (pos + 1) (some '(') rest).elim (fun _ => none) some := by
  unfold findSqlMatchingParen
  cases hscan : scanCode parenStep .code false 1 (pos + 1) (some '(') rest <;> simp [hscan]

/-- The parenthesis that closes a group. -/
theorem matchingParen_group {inner : List Char} (h : Balanced inner) (pos : Nat)
    (prev : Option Char) (rest : List Char) :
    findSqlMatchingParen ⟨pos, prev, '(' :: (inner ++ ')' :: rest)⟩ =
      some ⟨pos + 1 + inner.length, lastOf inner (some '('), ')' :: rest⟩ := by
  have hscan := scan_nested parenStep_nested h 0
    (separated_cons (by decide) rest : Separated (')' :: rest)) (pos + 1) (some '(')
  have hstop : scanCode parenStep .code false 1 (pos + 1 + inner.length)
      (lastOf inner (some '(')) (')' :: rest) =
        .inr ⟨pos + 1 + inner.length, lastOf inner (some '('), ')' :: rest⟩ :=
    scanCode_cons_found parenStep rfl rfl
  simp only [id, Nat.zero_add] at hscan
  rw [findSqlMatchingParen_open, hscan, hstop]
  rfl

/-! ## Names and blanks -/

/-- No blank stands here. -/
theorem skipSqlSpace_stop {pos : Nat} {prev : Option Char} {rest : List Char}
    (h : ∀ ch ∈ rest.head?, isSpace ch = false) :
    skipSqlSpace ⟨pos, prev, rest⟩ = ⟨pos, prev, rest⟩ := by
  cases rest with
  | nil => rfl
  | cons ch rest =>
    show skipSpaces pos prev (ch :: rest) = _
    rw [skipSpaces, if_neg (by simp [h ch rfl])]

/-- A space and what follows it. -/
theorem skipSqlSpace_space (pos : Nat) (prev : Option Char) (rest : List Char) :
    skipSqlSpace ⟨pos, prev, ' ' :: rest⟩ = skipSqlSpace ⟨pos + 1, some ' ', rest⟩ := rfl

theorem advance_text (text : List Char) (pos : Nat) (prev : Option Char) (rest : List Char) :
    (⟨pos, prev, text ++ rest⟩ : Cursor).advance text.length =
      ⟨pos + text.length, lastOf text prev, rest⟩ := by
  induction text generalizing pos prev with
  | nil => rfl
  | cons ch text ih =>
    rw [lastOf_cons, List.length_cons]
    refine (ih (pos + 1) (some ch)).trans ?_
    congr 1
    omega

/-- The position after a keyword. -/
theorem advance_word (keyword : String) (pos : Nat) (prev : Option Char) (rest : List Char) :
    (⟨pos, prev, keyword.toList ++ rest⟩ : Cursor).advance keyword.length =
      ⟨pos + keyword.length, lastOf keyword.toList prev, rest⟩ := by
  rw [← String.length_toList]
  exact advance_text keyword.toList pos prev rest

/-- The content of a quoted identifier. -/
theorem readQuoted_doubled (close : Char) (content : List Char) {rest : List Char}
    (hnext : rest.head? ≠ some close) (result : List Char) (pos : Nat) (prev : Option Char) :
    readQuoted close result pos prev (doubled close content ++ close :: rest) =
      (some (result ++ content),
        ⟨pos + (doubled close content).length + 1, some close, rest⟩) := by
  induction content generalizing result pos prev with
  | nil =>
    show readQuoted close result pos prev (close :: rest) = _
    rw [readQuoted.eq_def, List.append_nil]
    cases rest with
    | nil => simp [doubled]
    | cons ch rest =>
      have hch : ch ≠ close := by simpa using hnext
      simp [hch, doubled]
  | cons ch content ih =>
    have hcons : doubled close (ch :: content) =
        (if ch = close then [close, close] else [ch]) ++ doubled close content := rfl
    rw [hcons]
    by_cases hch : ch = close
    · subst hch
      rw [if_pos rfl, List.append_assoc, List.cons_append, List.cons_append, List.nil_append]
      have htwice : readQuoted ch result pos prev
          (ch :: ch :: (doubled ch content ++ ch :: rest)) =
            readQuoted ch (result ++ [ch]) (pos + 2) (some ch)
              (doubled ch content ++ ch :: rest) := by
        rw [readQuoted.eq_def]
        simp
      rw [htwice, ih, List.append_assoc, List.length_append]
      congr 2
      simp only [List.length_cons, List.length_nil]
      omega
    · rw [if_neg hch, List.append_assoc, List.cons_append, List.nil_append]
      have honce : readQuoted close result pos prev (ch :: (doubled close content ++ close :: rest))
          = readQuoted close (result ++ [ch]) (pos + 1) (some ch)
              (doubled close content ++ close :: rest) := by
        rw [readQuoted.eq_def]
        simp [hch]
      rw [honce, ih, List.append_assoc, List.length_append]
      congr 2
      simp only [List.length_cons, List.length_nil]
      omega

/-- A quoted identifier. -/
theorem readSqlIdentifier_quoted (name : List Char) {rest : List Char}
    (hnext : rest.head? ≠ some '"') (pos : Nat) (prev : Option Char) :
    readSqlIdentifier ⟨pos, prev, '"' :: (doubled '"' name ++ '"' :: rest)⟩ =
      (some name, ⟨pos + (doubled '"' name).length + 2, some '"', rest⟩) := by
  have hread := readQuoted_doubled '"' name hnext [] (pos + 1) (some '"')
  have hpos : pos + 1 + (doubled '"' name).length + 1 = pos + (doubled '"' name).length + 2 := by
    omega
  rw [hpos, List.nil_append] at hread
  exact hread

/-- An unquoted identifier. -/
theorem readBare_word {word rest : List Char} (hword : ∀ ch ∈ word, endsIdentifier ch = false)
    (hrest : ∀ ch ∈ rest.head?, endsIdentifier ch = true) (result : List Char) (pos : Nat)
    (prev : Option Char) :
    readBare result pos prev (word ++ rest) =
      (result ++ word, ⟨pos + word.length, lastOf word prev, rest⟩) := by
  induction word generalizing result pos prev with
  | nil =>
    cases rest with
    | nil => simp [readBare]
    | cons ch rest => simp [readBare, hrest ch rfl]
  | cons ch word ih =>
    obtain ⟨hch, hword⟩ := List.forall_mem_cons.mp hword
    rw [List.cons_append, readBare, if_neg (by simp [hch]), ih hword, List.append_assoc,
      lastOf_cons, List.length_cons]
    congr 2
    omega

/-! ## `split_sqlite_table_body` -/

/-- A comma, as a token. -/
def IsComma (token : List Char) : Prop := token = [',']

/-- Texts with commas between them. -/
def joined (first : List Char) (others : List (List Char)) : List Char :=
  first ++ others.flatMap fun other => ", ".toList ++ other

theorem joined_cons (first second : List Char) (others : List (List Char)) :
    joined first (second :: others) = first ++ ',' :: joined (' ' :: second) others := by
  simp [joined]

theorem splitStep_topLevel (s : SplitState) :
    TopLevel IsComma splitStep fun depth => { s with depth } where
  opening d c := rfl
  closing d c := rfl
  leaving c := rfl
  other d c ch hopen hclose := by
    simp [splitStep, hopen, hclose]
  symbol c ch _ hopen hclose _ hgood := by
    have hcomma : ch ≠ ',' := by
      rintro rfl
      exact hgood rfl
    simp [splitStep, hopen, hclose, hcomma]
  word c ch _ hidentifier _ := by
    have hparen := ordinary_ne_paren (ordinary_of_identifierChar hidentifier)
    have hcomma : ch ≠ ',' := by
      rintro rfl
      exact absurd hidentifier (by decide)
    simp [splitStep, hparen, hcomma]

theorem trimSqlView_space (text : List Char) : trimSqlView (' ' :: text) = trimSqlView text := rfl

/-- The segments that the loop has still to add. -/
theorem splitScan_joined (others : List (List Char)) :
    ∀ {first : List Char}, Plain IsComma first → (∀ other ∈ others, Plain IsComma other) →
      ∀ (result : List (List Char)) (pos : Nat) (prev : Option Char),
        ∃ s, scanCode splitStep .code false ⟨0, ⟨pos, prev, joined first others⟩, result⟩ pos prev
            (joined first others) = .inl s ∧
          s.result ++ [trimSqlView s.start.rest] =
            result ++ (first :: others).map trimSqlView := by
  induction others with
  | nil =>
    intro first hfirst _ result pos prev
    have hscan := scan_plain (splitStep_topLevel ⟨0, ⟨pos, prev, joined first []⟩, result⟩) hfirst
      separated_nil pos prev
    have hjoined : joined first [] = first := List.append_nil first
    rw [hjoined] at hscan ⊢
    rw [List.append_nil] at hscan
    exact ⟨_, hscan, rfl⟩
  | cons second others ih =>
    intro first hfirst hothers result pos prev
    obtain ⟨hsecond, hothers⟩ := List.forall_mem_cons.mp hothers
    rw [joined_cons]
    generalize hrest : joined (' ' :: second) others = rest at *
    have hscan := scan_plain
      (splitStep_topLevel ⟨0, ⟨pos, prev, first ++ ',' :: rest⟩, result⟩) hfirst
      (separated_cons (by decide) rest : Separated (',' :: rest)) pos prev
    -- the comma ends the segment, and the space after it is the first character of the next one
    have hcomma : splitStep ⟨0, ⟨pos, prev, first ++ ',' :: rest⟩, result⟩
        ⟨pos + first.length, lastOf first prev, ',' :: rest⟩ ',' =
          .inl ⟨0, ⟨pos + first.length + 1, some ',', rest⟩, result ++ [trimSqlView first]⟩ := by
      simp [splitStep, Cursor.next]
    have hspace : Plain IsComma (' ' :: second) :=
      .char (by decide) (by decide) (by simp [IsComma]) hsecond
    obtain ⟨s, hs, hresult⟩ := ih hspace hothers (result ++ [trimSqlView first])
      (pos + first.length + 1) (some ',')
    rw [hrest] at hs
    refine ⟨s, ?_, ?_⟩
    · exact hscan.trans ((scanCode_cons_code splitStep rfl hcomma).trans hs)
    · rw [hresult]
      simp [trimSqlView_space]

/-- A body is split where its texts are joined. -/
theorem splitBody_joined {first : List Char} {others : List (List Char)}
    (hfirst : Plain IsComma first) (hothers : ∀ other ∈ others, Plain IsComma other) :
    splitBody (joined first others) = (first :: others).map trimSqlView := by
  obtain ⟨s, hs, hresult⟩ := splitScan_joined others hfirst hothers [] 0 none
  unfold splitBody
  rw [Cursor.start, hs]
  exact hresult

theorem balanced_joined {first : List Char} {others : List (List Char)}
    (hfirst : Balanced first) (hothers : ∀ other ∈ others, Balanced other) :
    Balanced (joined first others) := by
  induction others generalizing first with
  | nil =>
    rw [joined, List.flatMap_nil, List.append_nil]
    exact hfirst
  | cons second others ih =>
    obtain ⟨hsecond, hothers⟩ := List.forall_mem_cons.mp hothers
    rw [joined_cons]
    have hspace : Balanced (' ' :: second) := .char (by decide) (by decide) not_false hsecond
    exact hfirst.append (.char (by decide) (by decide) not_false (ih hspace hothers))
      (separated_cons (by decide) _)

/-- A character before the body. -/
theorem findTableBody_cons {ch : Char} (hquote : isQuote ch = false) (hbracket : ch ≠ '[')
    (hopen : ch ≠ '(') (pos : Nat) (prev : Option Char) (rest : List Char) :
    findTableBody none false false pos prev (ch :: rest) =
      findTableBody none false false (pos + 1) (some ch) rest := by
  unfold isQuote at hquote
  rw [findTableBody]
  simp [hquote, hbracket, hopen]

/-- The quoted name before the body. -/
theorem findTableBody_doubled (quote : Char) (content : List Char) {rest : List Char}
    (hnext : rest.headD '\x00' ≠ quote) (pos : Nat) (prev : Option Char) :
    findTableBody (some quote) false false pos prev (doubled quote content ++ quote :: rest) =
      findTableBody none false false (pos + (doubled quote content).length + 1) (some quote)
        rest := by
  induction content generalizing pos prev with
  | nil =>
    show findTableBody (some quote) false false pos prev (quote :: rest) = _
    rw [findTableBody, if_neg Bool.false_ne_true]
    rw [if_pos rfl, if_neg hnext]
    rfl
  | cons ch content ih =>
    have hcons : doubled quote (ch :: content) =
        (if ch = quote then [quote, quote] else [ch]) ++ doubled quote content := rfl
    rw [hcons]
    by_cases hch : ch = quote
    · subst hch
      rw [if_pos rfl, List.append_assoc, List.cons_append, List.cons_append, List.nil_append,
        findTableBody, if_neg Bool.false_ne_true]
      rw [if_pos rfl, List.headD_cons, if_pos rfl, findTableBody, if_pos rfl, ih,
        List.length_append]
      simp only [List.length_cons, List.length_nil]
      congr 1
      omega
    · rw [if_neg hch, List.append_assoc, List.cons_append, List.nil_append, findTableBody,
        if_neg Bool.false_ne_true]
      rw [if_neg hch, ih, List.length_append]
      simp only [List.length_cons, List.length_nil]
      congr 1
      omega

/-- The text of a table: a header without quotes, brackets and parentheses, the quoted name, and
    the body in parentheses. -/
theorem splitTableBody_joined {header name first after : List Char} {others : List (List Char)}
    (hheader : ∀ ch ∈ header, isQuote ch = false ∧ ch ≠ '[' ∧ ch ≠ '(')
    (hfirst : Plain IsComma first) (hothers : ∀ other ∈ others, Plain IsComma other) :
    splitSqliteTableBody (header ++ '"' :: (doubled '"' name ++ '"' :: ' ' :: '(' ::
      (joined first others ++ ')' :: after))) = (first :: others).map trimSqlView := by
  have hbody : ∀ pos prev rest, ∃ pos' prev', findTableBody none false false pos prev
      (header ++ '"' :: (doubled '"' name ++ '"' :: ' ' :: '(' :: rest)) =
        some ⟨pos', prev', '(' :: rest⟩ := by
    intro pos prev rest
    induction header generalizing pos prev with
    | nil =>
      have hspace : (' ' :: '(' :: rest).headD '\x00' ≠ '"' := by
        rw [List.headD_cons]
        decide
      have hname := findTableBody_doubled '"' name hspace (pos + 1) (some '"')
      exact ⟨_, _, hname⟩
    | cons ch header ih =>
      obtain ⟨⟨hquote, hbracket, hopen⟩, hheader⟩ := List.forall_mem_cons.mp hheader
      obtain ⟨pos', prev', h⟩ := ih hheader (pos + 1) (some ch)
      exact ⟨pos', prev', (findTableBody_cons hquote hbracket hopen pos prev _).trans h⟩
  obtain ⟨pos, prev, hopen⟩ := hbody 0 none (joined first others ++ ')' :: after)
  have hclose := matchingParen_group
    (balanced_joined hfirst.balanced fun other hother => (hothers other hother).balanced) pos prev
    after
  unfold splitSqliteTableBody
  rw [hopen]
  dsimp only
  rw [hclose]
  have hlength : pos + 1 + (joined first others).length - pos - 1 =
      (joined first others).length := by
    omega
  dsimp only [Cursor.next]
  rw [hlength, List.take_left, splitBody_joined hfirst hothers]

end MetalOrm.Native.Ddl
