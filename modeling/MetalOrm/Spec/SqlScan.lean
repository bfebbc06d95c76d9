import MetalOrm.Native.SqliteDdlParser

/-!
# Scanning plain texts

A text is plain when its quotes, brackets, comments and parentheses are closed in it, and no token
of a kind stands outside of them. The scanners go through such texts as if they were not there,
whatever follows them after a separator.

## Key results

- `scan_nested`: a scanner in parentheses goes through a plain text
- `scan_plain`: a scanner outside of them goes through a text that is plain for it
-/

namespace MetalOrm.Native.Ddl

/-! ## Texts -/

/-- A character that no scanner takes for the beginning of anything, and that is no parenthesis. -/
def ordinary (ch : Char) : Bool := ch ∉ ['-', '/', '\'', '"', '`', '[', '(', ')']

/-- A quote. -/
def isQuote (ch : Char) : Bool := ch = '\'' || ch = '"' || ch = '`'

/-- What may follow a text without changing how it is read. -/
def Separated (rest : List Char) : Prop := ∀ ch ∈ rest.head?, ch ∈ [' ', ',', '(', ')']

/-- The content of a quoted text: the closing character is written twice. -/
def doubled (close : Char) (content : List Char) : List Char :=
  content.flatMap fun ch => if ch = close then [close, close] else [ch]

/-- A quoted text, an identifier in brackets or a comment, and what follows it. -/
inductive Silent : List Char → Option Char → Prop where
  | quoted {quote : Char} {next : Option Char} (hquote : isQuote quote = true)
    (content : List Char) (hnext : next ≠ some quote) :
    Silent (quote :: (doubled quote content ++ [quote])) next
  | bracketed {next : Option Char} (content : List Char) (hnext : next ≠ some ']') :
    Silent ('[' :: (doubled ']' content ++ [']'])) next
  | lineComment {content : List Char} {eol : Char} {next : Option Char}
    (hcontent : ∀ ch ∈ content, ch ≠ '\n' ∧ ch ≠ '\x0d') (heol : eol = '\n' ∨ eol = '\x0d') :
    Silent ('-' :: '-' :: (content ++ [eol])) next
  | blockComment {content : List Char} {next : Option Char} (hcontent : ¬['*', '/'] <:+: content) :
    Silent ('/' :: '*' :: (content ++ ['*', '/'])) next

/-- What is opened in the text is closed in it, and outside of quotes, brackets, comments and
    parentheses there is no bad token: a word, in capital letters, or another character. -/
inductive Plain : (List Char → Prop) → List Char → Prop where
  | nil {bad : List Char → Prop} : Plain bad []
  | word {bad : List Char → Prop} {word rest : List Char} (hnonempty : word ≠ [])
    (hword : ∀ ch ∈ word, sqlIdentifierChar ch = true)
    (hnext : ∀ ch ∈ rest.head?, sqlIdentifierChar ch = false)
    (hgood : ¬bad (word.map Char.toUpper)) (hrest : Plain bad rest) : Plain bad (word ++ rest)
  | char {bad : List Char → Prop} {ch : Char} {rest : List Char} (hch : ordinary ch = true)
    (hother : sqlIdentifierChar ch = false) (hgood : ¬bad [ch]) (hrest : Plain bad rest) :
    Plain bad (ch :: rest)
  | operator {bad : List Char → Prop} {ch : Char} {rest : List Char}
    (hch : ch = '-' ∧ rest.head? ≠ some '-' ∨ ch = '/' ∧ rest.head? ≠ some '*')
    (hgood : ¬bad [ch]) (hrest : Plain bad rest) : Plain bad (ch :: rest)
  | silent {bad : List Char → Prop} {piece rest : List Char} (hpiece : Silent piece rest.head?)
    (hrest : Plain bad rest) : Plain bad (piece ++ rest)
  | group {bad : List Char → Prop} {inner rest : List Char}
    (hinner : Plain (fun _ => False) inner) (hrest : Plain bad rest) :
    Plain bad ('(' :: (inner ++ ')' :: rest))

/-- What is opened in the text is closed in it. -/
abbrev Balanced (text : List Char) : Prop := Plain (fun _ => False) text

/-! ## Characters -/

theorem ordinary_of_identifierChar {ch : Char} (h : sqlIdentifierChar ch = true) :
    ordinary ch = true := by
  unfold ordinary
  simp only [List.mem_cons, List.not_mem_nil, or_false, not_or, decide_eq_true_eq]
  refine ⟨?_, ?_, ?_, ?_, ?_, ?_, ?_, ?_⟩ <;> (rintro rfl; revert h; decide)

theorem ordinary_ne_paren {ch : Char} (h : ordinary ch = true) : ch ≠ '(' ∧ ch ≠ ')' := by
  unfold ordinary at h
  simp only [List.mem_cons, List.not_mem_nil, or_false, not_or, decide_eq_true_eq] at h
  tauto

theorem lexStep_ordinary {ch : Char} (h : ordinary ch = true) (next : Char) :
    lexStep .code ch next = none := by
  unfold ordinary at h
  simp only [List.mem_cons, List.not_mem_nil, or_false, not_or, decide_eq_true_eq] at h
  obtain ⟨h1, h2, h3, h4, h5, h6, _, _⟩ := h
  simp [lexStep, h1, h2, h3, h4, h5, h6]

theorem separated_nil : Separated [] := by simp [Separated]

theorem separated_cons {ch : Char} (h : ch ∈ [' ', ',', '(', ')']) (rest : List Char) :
    Separated (ch :: rest) := by
  simpa [Separated] using h

theorem Separated.append {first second : List Char} (hfirst : Separated first)
    (hsecond : Separated second) : Separated (first ++ second) := by
  cases first with
  | nil => exact hsecond
  | cons ch first => exact hfirst

/-- A property of the first character after a text, for a separator and for the text itself. -/
theorem Separated.forall_head {p : Char → Prop} {text rest : List Char} (h : Separated rest)
    (hseparator : ∀ ch ∈ [' ', ',', '(', ')'], p ch) (htext : ∀ ch ∈ text.head?, p ch) :
    ∀ ch ∈ (text ++ rest).head?, p ch := by
  cases text with
  | nil =>
    intro ch hch
    exact hseparator ch (h ch hch)
  | cons first text => exact htext

/-- What follows a text does not begin with a character that is no separator. -/
theorem Separated.head_ne {text rest : List Char} (h : Separated rest) {ch : Char}
    (hch : ch ∉ [' ', ',', '(', ')']) (htext : text.head? ≠ some ch) :
    (text ++ rest).head? ≠ some ch := by
  intro hhead
  refine h.forall_head (p := (· ≠ ch)) ?_ ?_ ch hhead rfl
  · rintro other hother rfl
    exact hch hother
  · rintro other hother rfl
    exact htext hother

theorem headD_ne {rest : List Char} {ch : Char} (hch : ch ≠ '\x00') (h : rest.head? ≠ some ch) :
    rest.headD '\x00' ≠ ch := by
  cases rest with
  | nil => exact hch.symm
  | cons first rest =>
    rintro rfl
    exact h rfl

theorem separator_not_identifierChar : ∀ ch ∈ [' ', ',', '(', ')'],
    sqlIdentifierChar ch = false := by
  intro ch hch
  simp only [List.mem_cons, List.not_mem_nil, or_false] at hch
  obtain rfl | rfl | rfl | rfl := hch <;> decide

theorem Separated.not_identifierChar {rest : List Char} (h : Separated rest) :
    ∀ ch ∈ rest.head?, sqlIdentifierChar ch = false :=
  fun ch hch => separator_not_identifierChar ch (h ch hch)

/-! ## Plain texts -/

theorem Plain.mono {bad bad' : List Char → Prop} {text : List Char} (h : Plain bad text)
    (hbad : ∀ token, bad' token → bad token) : Plain bad' text := by
  induction h with
  | nil => exact .nil
  | word hnonempty hword hnext hgood _ ih =>
    exact .word hnonempty hword hnext (fun h => hgood (hbad _ h)) (ih hbad)
  | char hch hother hgood _ ih => exact .char hch hother (fun h => hgood (hbad _ h)) (ih hbad)
  | operator hch hgood _ ih => exact .operator hch (fun h => hgood (hbad _ h)) (ih hbad)
  | silent hpiece _ ih => exact .silent hpiece (ih hbad)
  | group hinner _ _ ih => exact .group hinner (ih hbad)

theorem Plain.balanced {bad : List Char → Prop} {text : List Char} (h : Plain bad text) :
    Balanced text :=
  h.mono fun _ => False.elim

/-- A quote is no separator. -/
theorem quote_not_separator {quote : Char} (h : isQuote quote = true) :
    quote ∉ [' ', ',', '(', ')'] := by
  unfold isQuote at h
  simp only [Bool.or_eq_true, decide_eq_true_eq] at h
  obtain (rfl | rfl) | rfl := h <;> decide

/-- What follows a piece may be separated from more text. -/
theorem Silent.before {piece text rest : List Char} (h : Silent piece text.head?)
    (hrest : Separated rest) : Silent piece (text ++ rest).head? := by
  generalize hnext : text.head? = next at h
  subst hnext
  cases h with
  | quoted hquote content hnext =>
    exact .quoted hquote content (hrest.head_ne (quote_not_separator hquote) hnext)
  | bracketed content hnext => exact .bracketed content (hrest.head_ne (by decide) hnext)
  | lineComment hcontent heol => exact .lineComment hcontent heol
  | blockComment hcontent => exact .blockComment hcontent

theorem Plain.append {bad : List Char → Prop} {first second : List Char}
    (hfirst : Plain bad first) (hsecond : Plain bad second) (hseparated : Separated second) :
    Plain bad (first ++ second) := by
  induction hfirst with
  | nil => exact hsecond
  | word hnonempty hword hnext hgood _ ih =>
    rw [List.append_assoc]
    exact .word hnonempty hword (hseparated.forall_head separator_not_identifierChar hnext) hgood
      (ih hsecond)
  | char hch hother hgood _ ih => exact .char hch hother hgood (ih hsecond)
  | operator hch hgood _ ih =>
    refine .operator ?_ hgood (ih hsecond)
    exact hch.imp (fun h => ⟨h.1, hseparated.head_ne (by decide) h.2⟩)
      fun h => ⟨h.1, hseparated.head_ne (by decide) h.2⟩
  | silent hpiece _ ih =>
    rw [List.append_assoc]
    exact .silent (hpiece.before hseparated) (ih hsecond)
  | group hinner _ _ ih =>
    simp only [List.cons_append, List.append_assoc]
    exact .group hinner (ih hsecond)

/-! ## Positions -/

/-- The character before the position after a text. -/
def lastOf (text : List Char) (prev : Option Char) : Option Char := text.getLast?.or prev

@[simp] theorem lastOf_nil (prev : Option Char) : lastOf [] prev = prev := rfl

@[simp] theorem lastOf_cons (ch : Char) (text : List Char) (prev : Option Char) :
    lastOf (ch :: text) prev = lastOf text (some ch) := by
  unfold lastOf
  rw [List.getLast?_cons]
  cases text.getLast? <;> rfl

@[simp] theorem lastOf_append (first second : List Char) (prev : Option Char) :
    lastOf (first ++ second) prev = lastOf second (lastOf first prev) := by
  unfold lastOf
  rw [List.getLast?_append, Option.or_assoc]

/-! ## Quoted texts and comments -/

section Scan

variable {σ α : Type} (step : σ → Cursor → Char → σ ⊕ α) (s : σ)

/-- One character that is no code. -/
theorem scanCode_cons_lex {state state' : Lexed} {ch : Char} {rest : List Char} {skip : Bool}
    (h : lexStep state ch (rest.headD '\x00') = some (state', skip)) (pos : Nat)
    (prev : Option Char) : scanCode step state false s pos prev (ch :: rest) =
      scanCode step state' skip s (pos + 1) (some ch) rest := by
  rw [scanCode, if_neg Bool.false_ne_true, h]

/-- A character that is skipped. -/
theorem scanCode_cons_skip (state : Lexed) (ch : Char) (rest : List Char) (pos : Nat)
    (prev : Option Char) : scanCode step state true s pos prev (ch :: rest) =
      scanCode step state false s (pos + 1) (some ch) rest := by
  rw [scanCode, if_pos rfl]

variable {s} in
/-- A character of the code that changes the state. -/
theorem scanCode_cons_code {ch : Char} {rest : List Char} {pos : Nat} {prev : Option Char} {s' : σ}
    (h : lexStep .code ch (rest.headD '\x00') = none)
    (hstep : step s ⟨pos, prev, ch :: rest⟩ ch = .inl s') :
    scanCode step .code false s pos prev (ch :: rest) =
      scanCode step .code false s' (pos + 1) (some ch) rest := by
  rw [scanCode, if_neg Bool.false_ne_true, h]
  dsimp only
  rw [hstep]

variable {s} in
/-- A character of the code that ends the scan. -/
theorem scanCode_cons_found {ch : Char} {rest : List Char} {pos : Nat} {prev : Option Char} {a : α}
    (h : lexStep .code ch (rest.headD '\x00') = none)
    (hstep : step s ⟨pos, prev, ch :: rest⟩ ch = .inr a) :
    scanCode step .code false s pos prev (ch :: rest) = .inr a := by
  rw [scanCode, if_neg Bool.false_ne_true, h]
  dsimp only
  rw [hstep]

/-- The content of a quoted text and its end, for a state that a character closes. -/
theorem scan_doubled {state : Lexed} {close : Char} (hother : ∀ ch next, ch ≠ close →
      lexStep state ch next = some (state, false))
    (hclose : ∀ next, lexStep state close next =
      some (if next = close then (state, true) else (.code, false)))
    (content : List Char) {rest : List Char} (hnext : rest.headD '\x00' ≠ close) (pos : Nat)
    (prev : Option Char) :
    scanCode step state false s pos prev (doubled close content ++ close :: rest) =
      scanCode step .code false s (pos + (doubled close content).length + 1) (some close)
        rest := by
  induction content generalizing pos prev with
  | nil =>
    have hend := hclose (rest.headD '\x00')
    rw [if_neg hnext] at hend
    exact scanCode_cons_lex step s hend pos prev
  | cons ch content ih =>
    have hcons : doubled close (ch :: content) =
        (if ch = close then [close, close] else [ch]) ++ doubled close content := rfl
    rw [hcons]
    by_cases hch : ch = close
    · subst hch
      have htwice := hclose ch
      rw [if_pos rfl] at htwice
      rw [if_pos rfl, List.append_assoc, List.cons_append, List.cons_append, List.nil_append,
        scanCode_cons_lex step s htwice, scanCode_cons_skip, ih]
      simp only [List.length_append, List.length_cons, List.length_nil]
      congr 1
      omega
    · rw [if_neg hch, List.append_assoc, List.cons_append, List.nil_append,
        scanCode_cons_lex step s (hother ch _ hch), ih]
      simp only [List.length_append, List.length_cons, List.length_nil]
      congr 1
      omega

/-- A quoted text. -/
theorem scan_quoted {quote : Char} (hquote : isQuote quote = true) (content : List Char)
    {rest : List Char} (hnext : rest.head? ≠ some quote) (pos : Nat) (prev : Option Char) :
    scanCode step .code false s pos prev (quote :: (doubled quote content ++ quote :: rest)) =
      scanCode step .code false s (pos + (doubled quote content).length + 2) (some quote)
        rest := by
  have hopen : ∀ next, lexStep .code quote next = some (.quoted quote, false) := by
    intro next
    unfold isQuote at hquote
    simp only [Bool.or_eq_true, decide_eq_true_eq] at hquote
    obtain (rfl | rfl) | rfl := hquote <;> rfl
  have hnext' : rest.headD '\x00' ≠ quote := by
    apply headD_ne _ hnext
    rintro rfl
    exact absurd hquote (by decide)
  have hother : ∀ ch next, ch ≠ quote →
      lexStep (.quoted quote) ch next = some (.quoted quote, false) := by
    intro ch next hch
    simp [lexStep, hch]
  have hclose : ∀ next, lexStep (.quoted quote) quote next =
      some (if next = quote then (.quoted quote, true) else (.code, false)) := by
    intro next
    simp [lexStep]
  rw [scanCode_cons_lex step s (hopen _), scan_doubled step s hother hclose content hnext']
  congr 1
  omega

/-- An identifier in brackets. -/
theorem scan_bracketed (content : List Char) {rest : List Char}
    (hnext : rest.head? ≠ some ']') (pos : Nat) (prev : Option Char) :
    scanCode step .code false s pos prev ('[' :: (doubled ']' content ++ ']' :: rest)) =
      scanCode step .code false s (pos + (doubled ']' content).length + 2) (some ']') rest := by
  have hopen : ∀ next, lexStep .code '[' next = some (.bracketed, false) := fun _ => rfl
  have hother : ∀ ch next, ch ≠ ']' →
      lexStep .bracketed ch next = some (.bracketed, false) := by
    intro ch next hch
    simp [lexStep, hch]
  have hclose : ∀ next, lexStep .bracketed ']' next =
      some (if next = ']' then (.bracketed, true) else (.code, false)) := by
    intro next
    simp [lexStep]
  rw [scanCode_cons_lex step s (hopen _),
    scan_doubled step s hother hclose content (headD_ne (by decide) hnext)]
  congr 1
  omega

/-- A comment up to the end of its line. -/
theorem scan_lineComment {content rest : List Char} {eol : Char}
    (hcontent : ∀ ch ∈ content, ch ≠ '\n' ∧ ch ≠ '\x0d') (heol : eol = '\n' ∨ eol = '\x0d')
    (pos : Nat) (prev : Option Char) :
    scanCode step .code false s pos prev ('-' :: '-' :: (content ++ eol :: rest)) =
      scanCode step .code false s (pos + content.length + 3) (some eol) rest := by
  have hbody : ∀ pos prev, scanCode step .lineComment false s pos prev (content ++ eol :: rest) =
      scanCode step .code false s (pos + content.length + 1) (some eol) rest := by
    induction content with
    | nil =>
      intro pos prev
      have hend : ∀ next, lexStep .lineComment eol next = some (.code, false) := by
        intro next
        obtain rfl | rfl := heol <;> rfl
      exact scanCode_cons_lex step s (hend _) pos prev
    | cons ch content ih =>
      intro pos prev
      obtain ⟨⟨hn, hr⟩, hcontent⟩ := List.forall_mem_cons.mp hcontent
      have hstay : ∀ next, lexStep .lineComment ch next = some (.lineComment, false) := by
        intro next
        simp [lexStep, hn, hr]
      rw [List.cons_append, scanCode_cons_lex step s (hstay _), ih hcontent, List.length_cons]
      congr 1
      omega
  have hopen : lexStep .code '-' '-' = some (.lineComment, true) := rfl
  rw [scanCode_cons_lex step s hopen, scanCode_cons_skip, hbody]
  congr 1
  omega

/-- A comment up to its end. -/
theorem scan_blockComment {content rest : List Char} (hcontent : ¬['*', '/'] <:+: content)
    (pos : Nat) (prev : Option Char) :
    scanCode step .code false s pos prev ('/' :: '*' :: (content ++ '*' :: '/' :: rest)) =
      scanCode step .code false s (pos + content.length + 4) (some '/') rest := by
  have hbody : ∀ pos prev,
      scanCode step .blockComment false s pos prev (content ++ '*' :: '/' :: rest) =
        scanCode step .code false s (pos + content.length + 2) (some '/') rest := by
    induction content with
    | nil =>
      intro pos prev
      have hend : lexStep .blockComment '*' '/' = some (.code, true) := rfl
      rw [List.nil_append, scanCode_cons_lex step s hend, scanCode_cons_skip]
      rfl
    | cons ch content ih =>
      intro pos prev
      have hstay : lexStep .blockComment ch ((content ++ '*' :: '/' :: rest).headD '\x00') =
          some (.blockComment, false) := by
        -- `*` is followed by `*` at the end, and by no `/` before it
        have hnot : ¬(ch = '*' ∧ (content ++ '*' :: '/' :: rest).headD '\x00' = '/') := by
          rintro ⟨rfl, hnext⟩
          cases content with
          | nil =>
            have hstar : '*' = '/' := hnext
            exact absurd hstar (by decide)
          | cons next content =>
            obtain rfl : next = '/' := hnext
            exact hcontent ⟨[], content, rfl⟩
        simp only [lexStep, Bool.and_eq_true, decide_eq_true_eq, if_neg hnot]
      have htail : ¬['*', '/'] <:+: content :=
        fun h => hcontent (h.trans (List.suffix_cons ch content).isInfix)
      rw [List.cons_append, scanCode_cons_lex step s hstay, ih htail, List.length_cons]
      congr 1
      omega
  have hopen : lexStep .code '/' '*' = some (.blockComment, true) := rfl
  rw [scanCode_cons_lex step s hopen, scanCode_cons_skip, hbody]
  congr 1
  omega

/-- What is no code. -/
theorem scan_silent {piece rest : List Char} (h : Silent piece rest.head?) (pos : Nat)
    (prev : Option Char) : scanCode step .code false s pos prev (piece ++ rest) =
      scanCode step .code false s (pos + piece.length) (lastOf piece prev) rest := by
  generalize hnext : rest.head? = next at h
  subst hnext
  cases h with
  | quoted hquote content hnext =>
    simp only [List.cons_append, List.append_assoc, List.nil_append]
    rw [scan_quoted step s hquote content hnext]
    simp only [lastOf_cons, lastOf_append, lastOf_nil, List.length_cons, List.length_append]
    rfl
  | bracketed content hnext =>
    simp only [List.cons_append, List.append_assoc, List.nil_append]
    rw [scan_bracketed step s content hnext]
    simp only [lastOf_cons, lastOf_append, lastOf_nil, List.length_cons, List.length_append]
    rfl
  | lineComment hcontent heol =>
    simp only [List.cons_append, List.append_assoc, List.nil_append]
    rw [scan_lineComment step s hcontent heol]
    simp only [lastOf_cons, lastOf_append, lastOf_nil, List.length_cons, List.length_append]
    rfl
  | blockComment hcontent =>
    simp only [List.cons_append, List.append_assoc, List.nil_append]
    rw [scan_blockComment step s hcontent]
    simp only [lastOf_cons, lastOf_append, lastOf_nil, List.length_cons, List.length_append]
    rfl

end Scan

/-! ## Parentheses -/

section Nesting

variable {σ α : Type}

/-- What a scanner does in parentheses: it counts them, and reads nothing else. -/
structure Nested (step : σ → Cursor → Char → σ ⊕ α) (level : Nat → σ) : Prop where
  opening : ∀ d c, step (level d) c '(' = .inl (level (d + 1))
  closing : ∀ d c, step (level (d + 2)) c ')' = .inl (level (d + 1))
  other : ∀ d c ch, ch ≠ '(' → ch ≠ ')' → step (level (d + 1)) c ch = .inl (level (d + 1))

/-- The word at a position, in capital letters. -/
def wordAt (c : Cursor) : List Char := (c.rest.takeWhile sqlIdentifierChar).map Char.toUpper

/-- What a scanner does outside of parentheses with tokens that are not bad: it goes on. -/
structure TopLevel (bad : List Char → Prop) (step : σ → Cursor → Char → σ ⊕ α)
    (level : Nat → σ) : Prop extends Nested step level where
  leaving : ∀ c, step (level 1) c ')' = .inl (level 0)
  symbol : ∀ c ch, c.rest.head? = some ch → ch ≠ '(' → ch ≠ ')' →
    sqlIdentifierChar ch = false → ¬bad [ch] → step (level 0) c ch = .inl (level 0)
  word : ∀ c ch, c.rest.head? = some ch → sqlIdentifierChar ch = true →
    c.prev.any sqlIdentifierChar = true ∨ ¬bad (wordAt c) → step (level 0) c ch = .inl (level 0)

variable {step : σ → Cursor → Char → σ ⊕ α} {level : Nat → σ}

/-- An operator is no comment, whatever follows the text. -/
theorem lexStep_operator {ch : Char} {text rest : List Char}
    (hch : ch = '-' ∧ text.head? ≠ some '-' ∨ ch = '/' ∧ text.head? ≠ some '*')
    (hrest : Separated rest) : lexStep .code ch ((text ++ rest).headD '\x00') = none := by
  have hdash : ∀ next, next ≠ '-' → lexStep .code '-' next = none := by
    intro next h
    simp [lexStep, h]
  have hslash : ∀ next, next ≠ '*' → lexStep .code '/' next = none := by
    intro next h
    simp [lexStep, h]
  obtain ⟨rfl, hnext⟩ | ⟨rfl, hnext⟩ := hch
  · exact hdash _ (headD_ne (by decide) (hrest.head_ne (by decide) hnext))
  · exact hslash _ (headD_ne (by decide) (hrest.head_ne (by decide) hnext))

/-- A word in parentheses. -/
theorem scan_word_nested (law : Nested step level) (d : Nat) {word : List Char}
    (hword : ∀ ch ∈ word, sqlIdentifierChar ch = true) (rest : List Char) (pos : Nat)
    (prev : Option Char) :
    scanCode step .code false (level (d + 1)) pos prev (word ++ rest) =
      scanCode step .code false (level (d + 1)) (pos + word.length) (lastOf word prev) rest := by
  induction word generalizing pos prev with
  | nil => rfl
  | cons ch word ih =>
    obtain ⟨hch, hword⟩ := List.forall_mem_cons.mp hword
    have hordinary := ordinary_of_identifierChar hch
    have hparen := ordinary_ne_paren hordinary
    rw [List.cons_append, scanCode_cons_code step (lexStep_ordinary hordinary _)
      (law.other d _ ch hparen.1 hparen.2), ih hword, lastOf_cons, List.length_cons]
    congr 1
    omega

/-- In parentheses, a scanner goes through a text in which what is opened is closed. -/
theorem scan_nested (law : Nested step level) {bad : List Char → Prop} {text : List Char}
    (h : Plain bad text) (d : Nat) {rest : List Char} (hrest : Separated rest) (pos : Nat)
    (prev : Option Char) :
    scanCode step .code false (level (d + 1)) pos prev (text ++ rest) =
      scanCode step .code false (level (d + 1)) (pos + text.length) (lastOf text prev) rest := by
  induction h generalizing d rest pos prev with
  | nil => rfl
  | word _ hword hnext _ _ ih =>
    rw [List.append_assoc, scan_word_nested law d hword, ih d hrest, lastOf_append,
      List.length_append]
    congr 1
    omega
  | char hch _ _ _ ih =>
    have hparen := ordinary_ne_paren hch
    rw [List.cons_append, scanCode_cons_code step (lexStep_ordinary hch _)
      (law.other d _ _ hparen.1 hparen.2), ih d hrest, lastOf_cons, List.length_cons]
    congr 1
    omega
  | @operator _ ch _ hch _ _ ih =>
    have hparen : ch ≠ '(' ∧ ch ≠ ')' := by
      obtain ⟨rfl, _⟩ | ⟨rfl, _⟩ := hch <;> decide
    rw [List.cons_append, scanCode_cons_code step (lexStep_operator hch hrest)
      (law.other d _ _ hparen.1 hparen.2), ih d hrest, lastOf_cons, List.length_cons]
    congr 1
    omega
  | silent hpiece _ ih =>
    rw [List.append_assoc, scan_silent step _ (hpiece.before hrest), ih d hrest, lastOf_append,
      List.length_append]
    congr 1
    omega
  | group _ _ ihinner ih =>
    simp only [List.cons_append, List.append_assoc]
    rw [scanCode_cons_code step rfl (law.opening _ _),
      ihinner (d + 1) (separated_cons (by decide) _),
      scanCode_cons_code step rfl (law.closing _ _), ih d hrest]
    simp only [lastOf_cons, lastOf_append, List.length_cons, List.length_append]
    congr 1
    omega

/-- The rest of a word outside of parentheses. -/
theorem scan_word_inside {bad : List Char → Prop} (law : TopLevel bad step level)
    {word : List Char} (hword : ∀ ch ∈ word, sqlIdentifierChar ch = true) (rest : List Char)
    (pos : Nat) {prev : Option Char} (hprev : prev.any sqlIdentifierChar = true) :
    scanCode step .code false (level 0) pos prev (word ++ rest) =
      scanCode step .code false (level 0) (pos + word.length) (lastOf word prev) rest := by
  induction word generalizing pos prev with
  | nil => rfl
  | cons ch word ih =>
    obtain ⟨hch, hword⟩ := List.forall_mem_cons.mp hword
    have hordinary := ordinary_of_identifierChar hch
    have hprev' : (some ch).any sqlIdentifierChar = true := hch
    rw [List.cons_append, scanCode_cons_code step (lexStep_ordinary hordinary _)
      (law.word _ ch rfl hch (.inl hprev)), ih hword _ hprev', lastOf_cons, List.length_cons]
    congr 1
    omega

theorem wordAt_eq {word rest : List Char} (hword : ∀ ch ∈ word, sqlIdentifierChar ch = true)
    (hnext : ∀ ch ∈ rest.head?, sqlIdentifierChar ch = false) (pos : Nat) (prev : Option Char) :
    wordAt ⟨pos, prev, word ++ rest⟩ = word.map Char.toUpper := by
  have hstop : rest.takeWhile sqlIdentifierChar = [] := by
    cases rest with
    | nil => rfl
    | cons ch rest => simp [hnext ch rfl]
  show ((word ++ rest).takeWhile sqlIdentifierChar).map Char.toUpper = _
  rw [List.takeWhile_append_of_pos hword, hstop, List.append_nil]

/-- Outside of parentheses, a scanner goes through a text in which no token is bad. -/
theorem scan_plain {bad : List Char → Prop} (law : TopLevel bad step level) {text : List Char}
    (h : Plain bad text) {rest : List Char} (hrest : Separated rest) (pos : Nat)
    (prev : Option Char) :
    scanCode step .code false (level 0) pos prev (text ++ rest) =
      scanCode step .code false (level 0) (pos + text.length) (lastOf text prev) rest := by
  induction h generalizing rest pos prev with
  | nil => rfl
  | @word bad word text hnonempty hword hnext hgood _ ih =>
    have hnext' := hrest.forall_head separator_not_identifierChar hnext
    rw [List.append_assoc]
    -- the first character of the word is where it is compared, the others follow one of a word
    cases word with
    | nil => exact absurd rfl hnonempty
    | cons ch word =>
      have hgood' : ¬bad (wordAt ⟨pos, prev, (ch :: word) ++ (text ++ rest)⟩) := by
        rw [wordAt_eq hword hnext']
        exact hgood
      obtain ⟨hch, hword⟩ := List.forall_mem_cons.mp hword
      have hordinary := ordinary_of_identifierChar hch
      have hfirst : step (level 0) ⟨pos, prev, ch :: (word ++ (text ++ rest))⟩ ch =
          .inl (level 0) := law.word _ ch rfl hch (.inr hgood')
      have hprev : (some ch).any sqlIdentifierChar = true := hch
      rw [List.cons_append, scanCode_cons_code step (lexStep_ordinary hordinary _) hfirst,
        scan_word_inside law hword _ _ hprev, ih law hrest,
        List.cons_append, lastOf_cons, lastOf_append, List.length_cons, List.length_append]
      congr 1
      omega
  | char hch hother hgood _ ih =>
    have hparen := ordinary_ne_paren hch
    rw [List.cons_append, scanCode_cons_code step (lexStep_ordinary hch _)
      (law.symbol _ _ rfl hparen.1 hparen.2 hother hgood), ih law hrest, lastOf_cons,
      List.length_cons]
    congr 1
    omega
  | @operator _ ch _ hch hgood _ ih =>
    have hsymbol : ch ≠ '(' ∧ ch ≠ ')' ∧ sqlIdentifierChar ch = false := by
      obtain ⟨rfl, _⟩ | ⟨rfl, _⟩ := hch <;> decide
    rw [List.cons_append, scanCode_cons_code step (lexStep_operator hch hrest)
      (law.symbol _ _ rfl hsymbol.1 hsymbol.2.1 hsymbol.2.2 hgood), ih law hrest, lastOf_cons,
      List.length_cons]
    congr 1
    omega
  | silent hpiece _ ih =>
    rw [List.append_assoc, scan_silent step _ (hpiece.before hrest), ih law hrest, lastOf_append,
      List.length_append]
    congr 1
    omega
  | group hinner _ _ ih =>
    simp only [List.cons_append, List.append_assoc]
    rw [scanCode_cons_code step rfl (law.opening _ _),
      scan_nested law.toNested hinner 0 (separated_cons (by decide) _),
      scanCode_cons_code step rfl (law.leaving _), ih law hrest]
    simp only [lastOf_cons, lastOf_append, List.length_cons, List.length_append]
    congr 1
    omega

end Nesting

end MetalOrm.Native.Ddl
