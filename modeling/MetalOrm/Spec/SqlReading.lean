import MetalOrm.Spec.SqlScan

/-!
# How a text is read

A text is a sequence of characters that stand on their own and of pieces: quoted texts, names in
brackets and comments, the last of which may be open. A scanner does its steps for the former only,
so all scanners read a text in the same way.

## Key results

- `exists_reads`, `Reads.unique`: a text is read in one way
- `scanCode_reads`: a scanner does its steps for the characters outside of the pieces
-/

namespace MetalOrm.Native.Ddl

/-- What begins a piece. -/
def Opens (ch : Char) (next : Option Char) : Prop :=
  isQuote ch = true ∨ ch = '[' ∨ (ch = '-' ∧ next = some '-') ∨ (ch = '/' ∧ next = some '*')

/-- A piece that is not closed. -/
inductive Unclosed : List Char → Prop where
  | quoted {quote : Char} (hquote : isQuote quote = true) (content : List Char) :
    Unclosed (quote :: doubled quote content)
  | bracketed (content : List Char) : Unclosed ('[' :: doubled ']' content)
  | lineComment {content : List Char} (hcontent : ∀ ch ∈ content, ch ≠ '\n' ∧ ch ≠ '\x0d') :
    Unclosed ('-' :: '-' :: content)
  | blockComment {content : List Char} (hcontent : ¬['*', '/'] <:+: content) :
    Unclosed ('/' :: '*' :: content)

/-- Which characters of a text stand outside of quotes, brackets and comments. -/
inductive Reads : List Char → List Bool → Prop where
  | nil : Reads [] []
  | code {ch : Char} {rest : List Char} {marks : List Bool} (hopens : ¬Opens ch rest.head?)
    (hrest : Reads rest marks) : Reads (ch :: rest) (true :: marks)
  | silent {piece rest : List Char} {marks : List Bool} (hpiece : Silent piece rest.head?)
    (hrest : Reads rest marks) : Reads (piece ++ rest) (List.replicate piece.length false ++ marks)
  | unclosed {text : List Char} (htext : Unclosed text) :
    Reads text (List.replicate text.length false)

/-! ## Texts that end in a piece -/

section

variable {σ α : Type} (step : σ → Cursor → Char → σ ⊕ α) (s : σ)

/-- A state that no character of the text leaves. -/
theorem scan_stay {state : Lexed} {text : List Char}
    (h : ∀ ch ∈ text, ∀ next, lexStep state ch next = some (state, false)) (pos : Nat)
    (prev : Option Char) : scanCode step state false s pos prev text = .inl s := by
  induction text generalizing pos prev with
  | nil => rfl
  | cons ch text ih =>
    obtain ⟨hch, htext⟩ := List.forall_mem_cons.mp h
    rw [scanCode_cons_lex step s (hch _)]
    exact ih htext _ _

/-- A state that one character closes, where that character is doubled. -/
theorem scan_doubled_end {state : Lexed} {close : Char} (hother : ∀ ch next, ch ≠ close →
      lexStep state ch next = some (state, false))
    (hclose : lexStep state close close = some (state, true)) (content : List Char) (pos : Nat)
    (prev : Option Char) :
    scanCode step state false s pos prev (doubled close content) = .inl s := by
  induction content generalizing pos prev with
  | nil => rfl
  | cons ch content ih =>
    have hcons : doubled close (ch :: content) =
        (if ch = close then [close, close] else [ch]) ++ doubled close content := rfl
    rw [hcons]
    by_cases hch : ch = close
    · subst hch
      rw [if_pos rfl, List.cons_append, List.cons_append, List.nil_append,
        scanCode_cons_lex step s hclose, scanCode_cons_skip]
      exact ih _ _
    · rw [if_neg hch, List.cons_append, List.nil_append,
        scanCode_cons_lex step s (hother ch _ hch)]
      exact ih _ _

/-- A piece that is not closed is read to the end. -/
theorem scan_unclosed {text : List Char} (h : Unclosed text) (pos : Nat) (prev : Option Char) :
    scanCode step .code false s pos prev text = .inl s := by
  cases h with
  | @quoted quote hquote content =>
    have hopen : ∀ next, lexStep .code quote next = some (.quoted quote, false) := by
      intro next
      unfold isQuote at hquote
      simp only [Bool.or_eq_true, decide_eq_true_eq] at hquote
      obtain (rfl | rfl) | rfl := hquote <;> rfl
    rw [scanCode_cons_lex step s (hopen _)]
    exact scan_doubled_end step s (fun ch next hch => by simp [lexStep, hch]) (by simp [lexStep])
      content _ _
  | bracketed content =>
    have hopen : ∀ next, lexStep .code '[' next = some (.bracketed, false) := fun _ => rfl
    rw [scanCode_cons_lex step s (hopen _)]
    exact scan_doubled_end step s (fun ch next hch => by simp [lexStep, hch]) (by simp [lexStep])
      content _ _
  | lineComment hcontent =>
    have hopen : lexStep .code '-' '-' = some (.lineComment, true) := rfl
    rw [scanCode_cons_lex step s hopen, scanCode_cons_skip]
    refine scan_stay step s (fun ch hch next => ?_) _ _
    simp [lexStep, hcontent ch hch]
  | @blockComment content hcontent =>
    have hopen : lexStep .code '/' '*' = some (.blockComment, true) := rfl
    rw [scanCode_cons_lex step s hopen, scanCode_cons_skip]
    -- no `*` of the content is followed by `/`
    have hbody : ∀ pos prev, scanCode step .blockComment false s pos prev content = .inl s := by
      induction content with
      | nil => exact fun _ _ => rfl
      | cons ch content ih =>
        intro pos prev
        have hnot : ¬(ch = '*' ∧ content.headD '\x00' = '/') := by
          rintro ⟨rfl, hnext⟩
          cases content with
          | nil => exact absurd hnext (by decide)
          | cons next content =>
            obtain rfl : next = '/' := hnext
            exact hcontent ⟨[], content, rfl⟩
        have hstay : lexStep .blockComment ch (content.headD '\x00') =
            some (.blockComment, false) := by
          simp only [lexStep, Bool.and_eq_true, decide_eq_true_eq, if_neg hnot]
        rw [scanCode_cons_lex step s hstay]
        exact ih (fun h => hcontent (h.trans (List.suffix_cons ch content).isInfix)) _ _
    exact hbody _ _

end

/-! ## Steps for the marked characters -/

section

variable {σ α : Type}

/-- The steps of a scanner for the marked characters of a text. -/
def runMarked (step : σ → Cursor → Char → σ ⊕ α) (s : σ) (pos : Nat) (prev : Option Char) :
    List Char → List Bool → σ ⊕ α
  | ch :: rest, true :: marks =>
    match step s ⟨pos, prev, ch :: rest⟩ ch with
    | .inl s => runMarked step s (pos + 1) (some ch) rest marks
    | .inr a => .inr a
  | ch :: rest, false :: marks => runMarked step s (pos + 1) (some ch) rest marks
  | _, _ => .inl s

variable {step : σ → Cursor → Char → σ ⊕ α} {s : σ} {text : List Char} {marks : List Bool}

theorem runMarked_silent (piece rest : List Char) (marks : List Bool) (pos : Nat)
    (prev : Option Char) :
    runMarked step s pos prev (piece ++ rest) (List.replicate piece.length false ++ marks) =
      runMarked step s (pos + piece.length) (lastOf piece prev) rest marks := by
  induction piece generalizing pos prev with
  | nil => rfl
  | cons ch piece ih =>
    rw [List.length_cons, List.replicate_succ, List.cons_append, List.cons_append, runMarked, ih,
      lastOf_cons, Nat.add_assoc, Nat.add_comm 1]

theorem lexStep_of_not_opens {ch : Char} {rest : List Char} (h : ¬Opens ch rest.head?) :
    lexStep .code ch (rest.headD '\x00') = none := by
  have hnext : ∀ c, c ≠ '\x00' → rest.headD '\x00' = c → rest.head? = some c := by
    intro c hc heq
    cases rest with
    | nil => exact absurd heq.symm hc
    | cons first rest => exact congrArg some heq
  simp only [Opens, isQuote, Bool.or_eq_true, decide_eq_true_eq, not_or] at h
  obtain ⟨⟨⟨hsingle, hdouble⟩, hback⟩, hbracket, hline, hblock⟩ := h
  have hline' : ¬(ch = '-' ∧ rest.headD '\x00' = '-') :=
    fun ⟨hch, heq⟩ => hline ⟨hch, hnext _ (by decide) heq⟩
  have hblock' : ¬(ch = '/' ∧ rest.headD '\x00' = '*') :=
    fun ⟨hch, heq⟩ => hblock ⟨hch, hnext _ (by decide) heq⟩
  simp only [lexStep, Bool.and_eq_true, Bool.or_eq_true, decide_eq_true_eq, hline', hblock',
    hsingle, hdouble, hback, hbracket, or_self, if_false]

/-- Every scanner does its steps for the same characters. -/
theorem scanCode_reads (h : Reads text marks) (s : σ) (pos : Nat) (prev : Option Char) :
    scanCode step .code false s pos prev text = runMarked step s pos prev text marks := by
  induction h generalizing s pos prev with
  | nil => rfl
  | @code ch rest marks hopens _ ih =>
    rw [scanCode, if_neg Bool.false_ne_true, lexStep_of_not_opens hopens, runMarked]
    dsimp only
    cases hstep : step s ⟨pos, prev, ch :: rest⟩ ch with
    | inl s' => exact ih s' _ _
    | inr a => rfl
  | silent hpiece _ ih =>
    rw [scan_silent step s hpiece, runMarked_silent]
    exact ih s _ _
  | @unclosed text htext =>
    have hrun := @runMarked_silent _ _ step s text [] [] pos prev
    rw [List.append_nil, List.append_nil] at hrun
    rw [scan_unclosed step s htext, hrun]
    rfl

end

/-! ## Every text is read -/

/-- A closing character that is doubled in a text, or closes it. -/
theorem split_doubled (close : Char) (text : List Char) :
    (∃ content rest, text = doubled close content ++ close :: rest ∧ rest.head? ≠ some close) ∨
      ∃ content, text = doubled close content := by
  induction hlength : text.length using Nat.strong_induction_on generalizing text with
  | _ n ih =>
    -- a character in front of either form
    have hcons : ∀ first piece rest, doubled close [first] = piece → text = piece ++ rest →
        rest.length < n →
        (∃ content rest, text = doubled close content ++ close :: rest ∧
          rest.head? ≠ some close) ∨ ∃ content, text = doubled close content := by
      intro first piece rest hpiece htext hlt
      have hfirst : ∀ content, doubled close (first :: content) = piece ++ doubled close content := by
        intro content
        rw [← hpiece, ← List.singleton_append, doubled, List.flatMap_append]
        rfl
      obtain ⟨content, after, heq, hne⟩ | ⟨content, heq⟩ := ih rest.length hlt rest rfl
      · exact .inl ⟨first :: content, after, by rw [htext, heq, hfirst, List.append_assoc], hne⟩
      · exact .inr ⟨first :: content, by rw [htext, heq, hfirst]⟩
    cases text with
    | nil => exact .inr ⟨[], rfl⟩
    | cons ch rest =>
      rw [List.length_cons] at hlength
      by_cases hch : ch = close
      · subst hch
        by_cases hnext : rest.head? = some ch
        · obtain ⟨after, rfl⟩ : ∃ after, rest = ch :: after := by
            cases rest with
            | nil => cases hnext
            | cons first after => exact ⟨after, by rw [Option.some.inj hnext]⟩
          rw [List.length_cons] at hlength
          exact hcons ch [ch, ch] after (by simp [doubled]) rfl (by omega)
        · exact .inl ⟨[], rest, rfl, hnext⟩
      · exact hcons ch [ch] rest (by simp [doubled, hch]) rfl (by omega)

/-- The end of a line, or of the text. -/
theorem split_line (text : List Char) : ∃ content, (∀ ch ∈ content, ch ≠ '\n' ∧ ch ≠ '\x0d') ∧
    (text = content ∨ ∃ eol rest, (eol = '\n' ∨ eol = '\x0d') ∧ text = content ++ eol :: rest) := by
  induction text with
  | nil => exact ⟨[], fun _ h => absurd h List.not_mem_nil, .inl rfl⟩
  | cons ch text ih =>
    by_cases hch : ch = '\n' ∨ ch = '\x0d'
    · exact ⟨[], fun _ h => absurd h List.not_mem_nil, .inr ⟨ch, text, hch, rfl⟩⟩
    · obtain ⟨content, hcontent, htext⟩ := ih
      refine ⟨ch :: content, List.forall_mem_cons.mpr ⟨not_or.mp hch, hcontent⟩, ?_⟩
      obtain rfl | ⟨eol, rest, heol, rfl⟩ := htext
      · exact .inl rfl
      · exact .inr ⟨eol, rest, heol, rfl⟩

/-- The end of a comment, or of the text. -/
theorem split_comment (text : List Char) : ∃ content, ¬['*', '/'] <:+: content ∧
    (text = content ∨ ∃ rest, text = content ++ '*' :: '/' :: rest) := by
  induction text with
  | nil => exact ⟨[], by decide, .inl rfl⟩
  | cons ch text ih =>
    by_cases hend : ['*', '/'] <+: ch :: text
    · obtain ⟨rest, hrest⟩ := hend
      exact ⟨[], by decide, .inr ⟨rest, hrest.symm⟩⟩
    · obtain ⟨content, hcontent, htext⟩ := ih
      have hbegin : ch :: content <+: ch :: text := by
        obtain rfl | ⟨rest, rfl⟩ := htext
        · exact List.prefix_rfl
        · exact List.prefix_append _ _
      refine ⟨ch :: content, fun hinfix => ?_, ?_⟩
      · obtain hfront | hinfix := List.infix_cons_iff.mp hinfix
        · exact hend (hfront.trans hbegin)
        · exact hcontent hinfix
      · obtain rfl | ⟨rest, rfl⟩ := htext
        · exact .inl rfl
        · exact .inr ⟨rest, rfl⟩

/-- A piece at the front of a text, which is closed or not. -/
theorem piece_of_opens {ch : Char} {rest : List Char} (h : Opens ch rest.head?) :
    Unclosed (ch :: rest) ∨
      ∃ piece after, ch :: rest = piece ++ after ∧ piece ≠ [] ∧ Silent piece after.head? := by
  have hsecond : ∀ c, rest.head? = some c → ∃ after, rest = c :: after := by
    intro c hc
    cases rest with
    | nil => cases hc
    | cons first after => exact ⟨after, by rw [Option.some.inj hc]⟩
  obtain hquote | rfl | ⟨rfl, hnext⟩ | ⟨rfl, hnext⟩ := h
  · obtain ⟨content, after, rfl, hne⟩ | ⟨content, rfl⟩ := split_doubled ch rest
    · exact .inr ⟨ch :: (doubled ch content ++ [ch]), after, by simp, by simp,
        .quoted hquote content hne⟩
    · exact .inl (.quoted hquote content)
  · obtain ⟨content, after, rfl, hne⟩ | ⟨content, rfl⟩ := split_doubled ']' rest
    · exact .inr ⟨'[' :: (doubled ']' content ++ [']']), after, by simp, by simp,
        .bracketed content hne⟩
    · exact .inl (.bracketed content)
  · obtain ⟨after, rfl⟩ := hsecond _ hnext
    obtain ⟨content, hcontent, rfl | ⟨eol, last, heol, rfl⟩⟩ := split_line after
    · exact .inl (.lineComment hcontent)
    · exact .inr ⟨'-' :: '-' :: (content ++ [eol]), last, by simp, by simp,
        .lineComment hcontent heol⟩
  · obtain ⟨after, rfl⟩ := hsecond _ hnext
    obtain ⟨content, hcontent, rfl | ⟨last, rfl⟩⟩ := split_comment after
    · exact .inl (.blockComment hcontent)
    · exact .inr ⟨'/' :: '*' :: (content ++ ['*', '/']), last, by simp, by simp,
        .blockComment hcontent⟩

/-- Every text is read in some way. -/
theorem exists_reads (text : List Char) : ∃ marks, Reads text marks := by
  induction hlength : text.length using Nat.strong_induction_on generalizing text with
  | _ n ih =>
    cases text with
    | nil => exact ⟨[], .nil⟩
    | cons ch rest =>
      by_cases hopens : Opens ch rest.head?
      · obtain hunclosed | ⟨piece, after, heq, hne, hpiece⟩ := piece_of_opens hopens
        · exact ⟨_, .unclosed hunclosed⟩
        · have hlt : after.length < n := by
            have hpos := List.length_pos_iff.mpr hne
            rw [← hlength, heq, List.length_append]
            omega
          obtain ⟨marks, hmarks⟩ := ih after.length hlt after rfl
          rw [heq]
          exact ⟨_, .silent hpiece hmarks⟩
      · rw [List.length_cons] at hlength
        obtain ⟨marks, hmarks⟩ := ih rest.length (by omega) rest rfl
        exact ⟨_, .code hopens hmarks⟩

/-! ## Marks -/

theorem Opens.of_none {ch : Char} {next : Option Char} (h : Opens ch none) : Opens ch next := by
  obtain h | h | ⟨-, h⟩ | ⟨-, h⟩ := h
  · exact .inl h
  · exact .inr (.inl h)
  · cases h
  · cases h

namespace Silent

variable {piece : List Char} {next : Option Char}

theorem ne_nil (h : Silent piece next) : piece ≠ [] := by
  cases h <;> exact List.cons_ne_nil _ _

/-- A piece is closed at the end of a text too. -/
theorem at_end (h : Silent piece next) : Silent piece none := by
  cases h with
  | quoted hquote content _ => exact .quoted hquote content nofun
  | bracketed content _ => exact .bracketed content nofun
  | lineComment hcontent heol => exact .lineComment hcontent heol
  | blockComment hcontent => exact .blockComment hcontent

end Silent

namespace Reads

variable {text : List Char} {marks : List Bool}

theorem length_eq (h : Reads text marks) : marks.length = text.length := by
  induction h with
  | nil => rfl
  | code _ _ ih => rw [List.length_cons, List.length_cons, ih]
  | silent _ _ ih => rw [List.length_append, List.length_append, List.length_replicate, ih]
  | unclosed _ => exact List.length_replicate

/-- The marks from a character on that stands on its own. -/
theorem drop (h : Reads text marks) {i : Nat} (hi : marks[i]? = some true) :
    Reads (text.drop i) (marks.drop i) := by
  induction h generalizing i with
  | nil => cases hi
  | @code ch rest marks hopens hrest ih =>
    cases i with
    | zero => exact .code hopens hrest
    | succ i => exact ih hi
  | @silent piece rest marks _ _ ih =>
    rw [List.getElem?_append, List.length_replicate] at hi
    split at hi
    · rw [List.getElem?_replicate, if_pos ‹_›] at hi
      cases hi
    · rename_i hge
      have hle : piece.length ≤ i := not_lt.mp hge
      rw [List.drop_append, List.drop_append, List.length_replicate, List.drop_eq_nil_of_le hle,
        List.drop_eq_nil_of_le (List.length_replicate.trans_le hle), List.nil_append,
        List.nil_append]
      exact ih hi
  | unclosed _ =>
    rw [List.getElem?_replicate] at hi
    split at hi <;> cases hi

/-- The marks up to a character that stands on its own. -/
theorem take (h : Reads text marks) {i : Nat} (hi : marks[i]? = some true) :
    Reads (text.take i) (marks.take i) := by
  have hhead : ∀ (rest : List Char) j, (rest.take j).head? = none ∨
      (rest.take j).head? = rest.head? := by
    intro rest j
    rw [List.head?_take]
    split
    · exact .inl rfl
    · exact .inr rfl
  induction h generalizing i with
  | nil => cases hi
  | @code ch rest marks hopens hrest ih =>
    cases i with
    | zero => exact .nil
    | succ i =>
      refine .code ?_ (ih hi)
      obtain hnone | hsame := hhead rest i
      · rw [hnone]
        exact fun h => hopens (h.of_none)
      · rw [hsame]
        exact hopens
  | @silent piece rest marks hpiece _ ih =>
    rw [List.getElem?_append, List.length_replicate] at hi
    split at hi
    · rw [List.getElem?_replicate, if_pos ‹_›] at hi
      cases hi
    · rename_i hge
      have hle : piece.length ≤ i := not_lt.mp hge
      rw [List.take_append, List.take_append, List.length_replicate, List.take_of_length_le hle,
        List.take_of_length_le (List.length_replicate.trans_le hle)]
      refine .silent ?_ (ih hi)
      obtain hnone | hsame := hhead rest (i - piece.length)
      · rw [hnone]
        exact hpiece.at_end
      · rw [hsame]
        exact hpiece
  | unclosed _ =>
    rw [List.getElem?_replicate] at hi
    split at hi <;> cases hi

/-- The marks behind a character that stands on its own. -/
theorem tail {ch : Char} (h : Reads (ch :: text) (true :: marks)) : Reads text marks := by
  generalize htext : ch :: text = whole at h
  generalize hmarks : true :: marks = all at h
  cases h with
  | nil => cases htext
  | code _ hrest =>
    obtain ⟨-, rfl⟩ := List.cons.inj htext
    obtain ⟨-, rfl⟩ := List.cons.inj hmarks
    exact hrest
  | silent hpiece _ =>
    obtain ⟨first, piece, rfl⟩ := List.exists_cons_of_ne_nil hpiece.ne_nil
    rw [List.length_cons, List.replicate_succ] at hmarks
    cases hmarks
  | unclosed _ =>
    rw [← htext, List.length_cons, List.replicate_succ] at hmarks
    cases hmarks

/-- The marks behind a position whose character stands on its own. -/
theorem behind (h : Reads text marks) {i : Nat} (hi : marks[i]? = some true) :
    Reads (text.drop (i + 1)) (marks.drop (i + 1)) := by
  have hreads := h.drop hi
  obtain ⟨hlt, hmark⟩ := List.getElem?_eq_some_iff.mp hi
  have hlt' : i < text.length := h.length_eq ▸ hlt
  rw [List.drop_eq_getElem_cons hlt', List.drop_eq_getElem_cons hlt, hmark] at hreads
  exact hreads.tail

/-- A scanner that stops at a position, if that is marked. -/
def stopAt (i : Nat) (_ : Unit) (c : Cursor) (_ : Char) : Unit ⊕ Unit :=
  if c.pos = i then .inr () else .inl ()

theorem runMarked_stopAt (hlength : marks.length = text.length) (i pos : Nat)
    (prev : Option Char) : runMarked (stopAt i) () pos prev text marks = .inr () ↔
      pos ≤ i ∧ marks[i - pos]? = some true := by
  induction marks generalizing text pos prev with
  | nil => simp [runMarked]
  | cons mark marks ih =>
    cases text with
    | nil => cases hlength
    | cons ch text =>
      have hlength' : marks.length = text.length := Nat.succ.inj hlength
      have hlater : pos + 1 ≤ i ∧ marks[i - (pos + 1)]? = some true ↔
          pos + 1 ≤ i ∧ (mark :: marks)[i - pos]? = some true := by
        refine and_congr_right fun hle => ?_
        rw [show i - pos = i - (pos + 1) + 1 by omega, List.getElem?_cons_succ]
      cases mark with
      | false =>
        rw [runMarked, ih hlength', hlater]
        refine ⟨fun ⟨hle, h⟩ => ⟨by omega, h⟩, fun ⟨hle, h⟩ => ⟨?_, h⟩⟩
        by_contra hlt
        rw [show i - pos = 0 by omega] at h
        cases h
      | true =>
        rw [runMarked, stopAt]
        dsimp only
        by_cases hpos : pos = i
        · subst hpos
          simp
        · rw [if_neg hpos]
          dsimp only
          rw [ih hlength', hlater]
          exact ⟨fun ⟨hle, h⟩ => ⟨by omega, h⟩, fun ⟨hle, h⟩ => ⟨by omega, h⟩⟩

/-- A text is read in one way. -/
theorem unique {marks' : List Bool} (h : Reads text marks) (h' : Reads text marks') :
    marks = marks' := by
  have hsame : ∀ i : Nat, marks[i]? = some true ↔ marks'[i]? = some true := by
    intro i
    have hrun : runMarked (stopAt i) () 0 none text marks =
        runMarked (stopAt i) () 0 none text marks' :=
      (scanCode_reads h () 0 none).symm.trans (scanCode_reads h' () 0 none)
    have hi := runMarked_stopAt h.length_eq i 0 none
    rw [hrun, runMarked_stopAt h'.length_eq] at hi
    simpa using hi.symm
  have hlength : marks.length = marks'.length := h.length_eq.trans h'.length_eq.symm
  refine List.ext_getElem hlength fun i hi hi' => ?_
  have hiff := hsame i
  rw [List.getElem?_eq_getElem hi, List.getElem?_eq_getElem hi'] at hiff
  simpa using hiff

end Reads

end MetalOrm.Native.Ddl
