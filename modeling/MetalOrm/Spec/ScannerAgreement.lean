import MetalOrm.Spec.ScannerSearch

/-!
# The scanners agree

All scanners read a text in the same way, except the first loop of `split_sqlite_table_body`, which
looks for the body: it knows no comments, and a name in brackets ends for it at the first `]`. So it
agrees with the others just on the texts that have neither in front of the body.

## Key results

- `findTableBody_spec`: where the first loop stops
- `scanners_agree_iff`: when the scanners read a text in the same way
-/

namespace MetalOrm.Native.Ddl

/-! ## The first loop -/

/-- Which characters the first loop of `split_sqlite_table_body` takes for ones that stand on their
    own, up to the one where it stops. -/
def tableBodyMarks (quote : Option Char) (bracket skip : Bool) : List Char → List Bool
  | [] => []
  | ch :: rest =>
    if skip then false :: tableBodyMarks quote bracket false rest
    else
      match quote with
      | some q =>
        if ch = q then
          if rest.headD '\x00' = q then false :: tableBodyMarks quote bracket true rest
          else false :: tableBodyMarks none bracket false rest
        else false :: tableBodyMarks quote bracket false rest
      | none =>
        if bracket then false :: tableBodyMarks none (!(ch = ']')) false rest
        else if ch = '\'' || ch = '"' || ch = '`' then
          false :: tableBodyMarks (some ch) false false rest
        else if ch = '[' then false :: tableBodyMarks none true false rest
        else if ch = '(' then [true]
        else true :: tableBodyMarks none false false rest

/-- A parenthesis that stands on its own. -/
def Opening (text : List Char) (marks : List Bool) (i : Nat) : Prop :=
  text[i]? = some '(' ∧ marks[i]? = some true

/-- The first loop stops at the first parenthesis that stands on its own for it. -/
theorem findTableBody_spec (quote : Option Char) (bracket skip : Bool) (text : List Char) (pos : Nat)
    (prev : Option Char) :
    (∃ k c, findTableBody quote bracket skip pos prev text = some c ∧ c.pos = pos + k ∧
        c.rest = text.drop k ∧ IsFirst (Opening text (tableBodyMarks quote bracket skip text)) k) ∨
      findTableBody quote bracket skip pos prev text = none ∧
        (tableBodyMarks quote bracket skip text).length = text.length ∧
        ∀ k, ¬Opening text (tableBodyMarks quote bracket skip text) k := by
  induction text generalizing quote bracket skip pos prev with
  | nil => exact .inr ⟨rfl, rfl, fun k h => by cases h.1⟩
  | cons ch text ih =>
    -- the loop goes on with the next character
    have hnext : ∀ quote' bracket' skip' mark, (mark = true → ch ≠ '(') →
        (∃ k c, findTableBody quote' bracket' skip' (pos + 1) (some ch) text = some c ∧
            c.pos = pos + k ∧ c.rest = (ch :: text).drop k ∧
            IsFirst (Opening (ch :: text) (mark :: tableBodyMarks quote' bracket' skip' text)) k) ∨
          findTableBody quote' bracket' skip' (pos + 1) (some ch) text = none ∧
            (mark :: tableBodyMarks quote' bracket' skip' text).length = (ch :: text).length ∧
            ∀ k, ¬Opening (ch :: text) (mark :: tableBodyMarks quote' bracket' skip' text) k := by
      intro quote' bracket' skip' mark hmark
      have hzero : ¬Opening (ch :: text) (mark :: tableBodyMarks quote' bracket' skip' text) 0 := by
        rintro ⟨hch, htrue⟩
        exact hmark (Option.some.inj htrue) (Option.some.inj hch)
      obtain ⟨k, c, hfind, hpos, hrest, hfirst⟩ | ⟨hnone, hlength, hno⟩ :=
        ih quote' bracket' skip' (pos + 1) (some ch)
      · exact .inl ⟨k + 1, c, hfind, by omega, hrest, IsFirst.succ hfirst hzero⟩
      · refine .inr ⟨hnone, congrArg (· + 1) hlength, fun k => ?_⟩
        cases k with
        | zero => exact hzero
        | succ k => exact hno k
    have hplain := fun quote' bracket' skip' =>
      hnext quote' bracket' skip' false (absurd · Bool.false_ne_true)
    cases quote with
    | some q =>
      rw [findTableBody, tableBodyMarks]
      split
      · exact hplain _ _ _
      · split
        · split
          · exact hplain _ _ _
          · exact hplain _ _ _
        · exact hplain _ _ _
    | none =>
      rw [findTableBody, tableBodyMarks]
      split
      · exact hplain _ _ _
      · split
        · exact hplain _ _ _
        · split
          · exact hplain _ _ _
          · split
            · exact hplain _ _ _
            · split
              · rename_i hopen
                subst hopen
                exact .inl ⟨0, _, rfl, rfl, rfl, ⟨rfl, rfl⟩, fun j hj => absurd hj (Nat.not_lt_zero j)⟩
              · rename_i hopen
                exact hnext _ _ _ _ fun _ => hopen

/-! ## What the first loop passes -/

/-- A character that is no quote and no bracket. -/
theorem tableBodyMarks_code {ch : Char} (hquote : isQuote ch = false) (hbracket : ch ≠ '[')
    (hopen : ch ≠ '(') (rest : List Char) : tableBodyMarks none false false (ch :: rest) =
      true :: tableBodyMarks none false false rest := by
  unfold isQuote at hquote
  rw [tableBodyMarks, if_neg Bool.false_ne_true, if_neg Bool.false_ne_true, hquote,
    if_neg Bool.false_ne_true, if_neg hbracket, if_neg hopen]

theorem tableBodyMarks_quote {quote : Char} (hquote : isQuote quote = true) (rest : List Char) :
    tableBodyMarks none false false (quote :: rest) =
      false :: tableBodyMarks (some quote) false false rest := by
  unfold isQuote at hquote
  rw [tableBodyMarks, if_neg Bool.false_ne_true, if_neg Bool.false_ne_true, if_pos hquote]

/-- The content of a quoted text. -/
theorem tableBodyMarks_doubled (quote : Char) (content after : List Char) :
    tableBodyMarks (some quote) false false (doubled quote content ++ after) =
      List.replicate (doubled quote content).length false ++
        tableBodyMarks (some quote) false false after := by
  induction content with
  | nil => rfl
  | cons ch content ih =>
    have hcons : doubled quote (ch :: content) =
        (if ch = quote then [quote, quote] else [ch]) ++ doubled quote content := rfl
    rw [hcons]
    by_cases hch : ch = quote
    · subst hch
      rw [if_pos rfl, List.append_assoc, List.cons_append, List.cons_append, List.nil_append,
        tableBodyMarks, if_neg Bool.false_ne_true, if_pos rfl, List.headD_cons, if_pos rfl,
        tableBodyMarks, if_pos rfl, ih]
      rfl
    · rw [if_neg hch, List.append_assoc, List.cons_append, List.nil_append, tableBodyMarks,
        if_neg Bool.false_ne_true, if_neg hch, ih]
      rfl

/-- The end of a quoted text. -/
theorem tableBodyMarks_close {quote : Char} {rest : List Char} (hnext : rest.headD '\x00' ≠ quote) :
    tableBodyMarks (some quote) false false (quote :: rest) =
      false :: tableBodyMarks none false false rest := by
  rw [tableBodyMarks, if_neg Bool.false_ne_true, if_pos rfl, if_neg hnext]

/-- A name in brackets, up to the first that closes it. -/
theorem tableBodyMarks_bracketed {content : List Char} (hcontent : ']' ∉ content)
    (after : List Char) : tableBodyMarks none true false (content ++ after) =
      List.replicate content.length false ++ tableBodyMarks none true false after := by
  induction content with
  | nil => rfl
  | cons ch content ih =>
    rw [List.mem_cons, not_or] at hcontent
    rw [List.cons_append, tableBodyMarks, if_neg Bool.false_ne_true, if_pos rfl,
      decide_eq_false fun h => hcontent.1 h.symm, Bool.not_false, ih hcontent.2]
    rfl

theorem tableBodyMarks_bracket (rest : List Char) : tableBodyMarks none false false ('[' :: rest) =
    false :: tableBodyMarks none true false rest := by
  rw [tableBodyMarks]
  rfl

/-- A delimiter on each side. -/
theorem replicate_delimited (n : Nat) (marks : List Bool) :
    false :: (List.replicate n false ++ false :: marks) = List.replicate (n + 2) false ++ marks := by
  rw [List.replicate_succ, List.replicate_succ', List.cons_append, List.append_assoc]
  rfl

/-- A quoted text. -/
theorem tableBodyMarks_quoted {quote : Char} (hquote : isQuote quote = true) (content : List Char)
    {rest : List Char} (hnext : rest.head? ≠ some quote) :
    tableBodyMarks none false false (quote :: (doubled quote content ++ quote :: rest)) =
      List.replicate ((doubled quote content).length + 2) false ++
        tableBodyMarks none false false rest := by
  have hnull : quote ≠ '\x00' := by
    rintro rfl
    exact absurd hquote (by decide)
  rw [tableBodyMarks_quote hquote, tableBodyMarks_doubled,
    tableBodyMarks_close (headD_ne hnull hnext), replicate_delimited]

/-- The first `]` ends a name in brackets. -/
theorem tableBodyMarks_name {content : List Char} (hcontent : ']' ∉ content) (rest : List Char) :
    tableBodyMarks none false false ('[' :: (content ++ ']' :: rest)) =
      List.replicate (content.length + 2) false ++ tableBodyMarks none false false rest := by
  have hclose : tableBodyMarks none true false (']' :: rest) =
      false :: tableBodyMarks none false false rest := by
    rw [tableBodyMarks]
    rfl
  rw [tableBodyMarks_bracket, tableBodyMarks_bracketed hcontent, hclose, replicate_delimited]

theorem doubled_of_not_mem {close : Char} {content : List Char} (h : close ∉ content) :
    doubled close content = content := by
  induction content with
  | nil => rfl
  | cons ch content ih =>
    rw [List.mem_cons, not_or] at h
    have hcons : doubled close (ch :: content) =
        (if ch = close then [close, close] else [ch]) ++ doubled close content := rfl
    rw [hcons, if_neg fun heq => h.1 heq.symm, ih h.2]
    rfl

/-! ## Texts without comments in front of the body -/

/-- In front of the first parenthesis that stands on its own there is no comment, and no `]` is
    doubled in a name in brackets. -/
inductive PlainHeader : List Char → Prop where
  | nil : PlainHeader []
  | opening (rest : List Char) : PlainHeader ('(' :: rest)
  | code {ch : Char} {rest : List Char} (hopens : ¬Opens ch rest.head?) (hopen : ch ≠ '(')
    (hrest : PlainHeader rest) : PlainHeader (ch :: rest)
  | quoted {quote : Char} (hquote : isQuote quote = true) (content : List Char) {rest : List Char}
    (hnext : rest.head? ≠ some quote) (hrest : PlainHeader rest) :
    PlainHeader (quote :: (doubled quote content ++ quote :: rest))
  | bracketed {content rest : List Char} (hcontent : ']' ∉ content) (hnext : rest.head? ≠ some ']')
    (hrest : PlainHeader rest) : PlainHeader ('[' :: (content ++ ']' :: rest))
  | openQuote {quote : Char} (hquote : isQuote quote = true) (content : List Char) :
    PlainHeader (quote :: doubled quote content)
  | openBracket {content : List Char} (hcontent : ']' ∉ content) : PlainHeader ('[' :: content)

/-- The first loop reads such a text as the other scanners do. -/
theorem PlainHeader.marks {text : List Char} (h : PlainHeader text) :
    ∃ marks, Reads text marks ∧ tableBodyMarks none false false text <+: marks := by
  induction h with
  | nil => exact ⟨[], .nil, List.prefix_rfl⟩
  | opening rest =>
    obtain ⟨marks, hmarks⟩ := exists_reads rest
    exact ⟨true :: marks, .code (by simp [Opens, isQuote]) hmarks, ⟨marks, rfl⟩⟩
  | @code ch rest hopens hopen _ ih =>
    obtain ⟨marks, hmarks, hfront⟩ := ih
    refine ⟨true :: marks, .code hopens hmarks, ?_⟩
    rw [tableBodyMarks_code (Bool.not_eq_true _ ▸ fun h => hopens (.inl h))
      (fun h => hopens (.inr (.inl h))) hopen]
    exact List.cons_prefix_cons.mpr ⟨rfl, hfront⟩
  | @quoted quote hquote content rest hnext _ ih =>
    obtain ⟨marks, hmarks, hfront⟩ := ih
    have hreads := Reads.silent (.quoted hquote content hnext) hmarks
    rw [List.cons_append, List.append_assoc, List.singleton_append] at hreads
    refine ⟨_, hreads, ?_⟩
    rw [tableBodyMarks_quoted hquote content hnext, List.length_cons, List.length_append]
    exact (List.prefix_append_right_inj _).mpr hfront
  | @bracketed content rest hcontent hnext _ ih =>
    obtain ⟨marks, hmarks, hfront⟩ := ih
    have hreads := Reads.silent (.bracketed content hnext) hmarks
    rw [doubled_of_not_mem hcontent, List.cons_append, List.append_assoc,
      List.singleton_append] at hreads
    refine ⟨_, hreads, ?_⟩
    rw [tableBodyMarks_name hcontent, List.length_cons, List.length_append]
    exact (List.prefix_append_right_inj _).mpr hfront
  | @openQuote quote hquote content =>
    refine ⟨_, .unclosed (.quoted hquote content), ?_⟩
    have hcontent := tableBodyMarks_doubled quote content []
    rw [List.append_nil] at hcontent
    rw [tableBodyMarks_quote hquote, hcontent, tableBodyMarks, List.append_nil]
    exact List.prefix_rfl
  | @openBracket content hcontent =>
    have hunclosed := Unclosed.bracketed content
    rw [doubled_of_not_mem hcontent] at hunclosed
    refine ⟨_, .unclosed hunclosed, ?_⟩
    have hmarks := tableBodyMarks_bracketed hcontent []
    rw [List.append_nil] at hmarks
    rw [tableBodyMarks_bracket, hmarks, tableBodyMarks, List.append_nil]
    exact List.prefix_rfl

/-- A character of a piece does not stand on its own. -/
theorem not_prefix_of_lt {n m : Nat} (hlt : n < m) (first second : List Bool) :
    ¬List.replicate n false ++ true :: first <+: List.replicate m false ++ second := by
  rintro ⟨more, heq⟩
  have hn := congrArg (·[n]?) heq
  simp [List.getElem?_append, hlt] at hn

/-- A name in which a `]` is doubled is not passed. -/
theorem not_prefix_of_mem {content after : List Char} (hcontent : ']' ∈ content)
    {m : Nat} (hm : (doubled ']' content).length + 1 ≤ m) (marks : List Bool) :
    ¬tableBodyMarks none false false ('[' :: (doubled ']' content ++ after)) <+:
      List.replicate m false ++ marks := by
  obtain ⟨front, back, rfl, hfront⟩ := List.eq_append_cons_of_mem hcontent
  have hdoubled : doubled ']' (front ++ ']' :: back) =
      front ++ ']' :: ']' :: doubled ']' back := by
    have hsplit : doubled ']' (front ++ ']' :: back) =
        doubled ']' front ++ ']' :: ']' :: doubled ']' back := by simp [doubled]
    rw [hsplit, doubled_of_not_mem hfront]
  rw [hdoubled] at hm ⊢
  rw [List.append_assoc, List.cons_append, tableBodyMarks_name hfront, List.cons_append,
    tableBodyMarks_code (by decide) (by decide) (by decide)]
  rw [List.length_append, List.length_cons, List.length_cons] at hm
  exact not_prefix_of_lt (by omega) _ _

/-- A comment is not passed. -/
theorem not_prefix_of_comment {ch : Char} (hch : ch = '-' ∨ ch = '/') (rest : List Char) {m : Nat}
    (hm : 0 < m) (marks : List Bool) :
    ¬tableBodyMarks none false false (ch :: rest) <+: List.replicate m false ++ marks := by
  have hmarks : tableBodyMarks none false false (ch :: rest) =
      true :: tableBodyMarks none false false rest := by
    obtain rfl | rfl := hch <;>
      exact tableBodyMarks_code (by decide) (by decide) (by decide) rest
  rw [hmarks]
  exact not_prefix_of_lt hm _ _

/-- And only such a text. -/
theorem plainHeader_of_prefix {text : List Char} {marks : List Bool} (h : Reads text marks)
    (hfront : tableBodyMarks none false false text <+: marks) : PlainHeader text := by
  induction h with
  | nil => exact .nil
  | @code ch rest marks hopens _ ih =>
    by_cases hopen : ch = '('
    · subst hopen
      exact .opening rest
    · rw [tableBodyMarks_code (Bool.not_eq_true _ ▸ fun h => hopens (.inl h))
        (fun h => hopens (.inr (.inl h))) hopen] at hfront
      exact .code hopens hopen (ih (List.cons_prefix_cons.mp hfront).2)
  | @silent piece rest marks hpiece _ ih =>
    generalize hnext : rest.head? = next at hpiece
    subst hnext
    cases hpiece with
    | quoted hquote content hnext =>
      rw [List.cons_append, List.append_assoc, List.singleton_append] at hfront ⊢
      rw [tableBodyMarks_quoted hquote content hnext, List.length_cons, List.length_append] at hfront
      exact .quoted hquote content hnext (ih ((List.prefix_append_right_inj _).mp hfront))
    | bracketed content hnext =>
      by_cases hcontent : ']' ∈ content
      · rw [List.cons_append, List.append_assoc] at hfront
        exact absurd hfront (not_prefix_of_mem hcontent (by simp) _)
      · rw [doubled_of_not_mem hcontent, List.cons_append, List.append_assoc,
          List.singleton_append] at hfront ⊢
        rw [tableBodyMarks_name hcontent, List.length_cons, List.length_append] at hfront
        exact .bracketed hcontent hnext (ih ((List.prefix_append_right_inj _).mp hfront))
    | lineComment _ _ =>
      exact absurd hfront (not_prefix_of_comment (.inl rfl) _ (Nat.succ_pos _) _)
    | blockComment _ =>
      exact absurd hfront (not_prefix_of_comment (.inr rfl) _ (Nat.succ_pos _) _)
  | @unclosed text htext =>
    rw [← List.append_nil (List.replicate text.length false)] at hfront
    cases htext with
    | quoted hquote content => exact .openQuote hquote content
    | bracketed content =>
      by_cases hcontent : ']' ∈ content
      · rw [← List.append_nil (doubled ']' content)] at hfront
        exact absurd hfront (not_prefix_of_mem hcontent (by simp) _)
      · rw [doubled_of_not_mem hcontent]
        exact .openBracket hcontent
    | lineComment _ =>
      exact absurd hfront (not_prefix_of_comment (.inl rfl) _ (Nat.succ_pos _) _)
    | blockComment _ =>
      exact absurd hfront (not_prefix_of_comment (.inr rfl) _ (Nat.succ_pos _) _)

/-! ## Agreement -/

/-- The pair of parentheses around the body of a table. -/
structure BodyPair (text : List Char) (marks : List Bool) (opening closing : Nat) : Prop where
  first : IsFirst (Opening text marks) opening
  closed : IsMatch text marks opening closing

/-- The segments of the body and the commas between them, which stand outside of all parentheses, are
    the body. -/
def SplitsBody (text : List Char) (marks : List Bool) (opening closing : Nat) : Prop :=
  ∃ segments, splitSqliteTableBody text = segments.map trimSqlView ∧
    [','].intercalate segments = (text.drop (opening + 1)).take (closing - opening - 1) ∧
    ∀ i, i ∈ commas (opening + 1) segments ↔ opening < i ∧ i < closing ∧ text[i]? = some ',' ∧
      marks[i]? = some true ∧
      depthAt (text.drop (opening + 1)) (marks.drop (opening + 1)) (i - (opening + 1)) = 0

/-- All scanners read a text in the same way, and find what they look for. -/
structure ScannersAgree (text : List Char) (marks : List Bool) : Prop where
  reads : Reads text marks
  matching : ∀ opening, Opening text marks opening → ∀ closing,
    (findSqlMatchingParen ((Cursor.start text).advance opening)).map (·.pos) = some closing ↔
      IsMatch text marks opening closing
  keyword : ∀ keyword, KeywordText keyword → ∀ start, start = 0 ∨ marks[start]? = some true →
    ∀ found, (findSqlKeywordTopLevel ((Cursor.start text).advance start) keyword).map (·.pos) =
      some found ↔ ∃ k, found = start + k ∧ IsFirst (KeywordAt text marks start keyword) k
  body : ∀ opening closing, BodyPair text marks opening closing →
    SplitsBody text marks opening closing
  noBody : (¬∃ opening closing, BodyPair text marks opening closing) →
    splitSqliteTableBody text = []
  header : tableBodyMarks none false false text <+: marks

theorem stateAt_take {σ : Type} (advance : σ → Char → σ) (s : σ) (text : List Char)
    (marks : List Bool) {k n : Nat} (hk : k ≤ n) :
    stateAt advance s (text.take n) (marks.take n) k = stateAt advance s text marks k := by
  unfold stateAt
  rw [List.zip_eq_zipWith, List.zip_eq_zipWith, ← List.take_zipWith, List.take_take, min_eq_left hk]

/-- The segments of a body that was found. -/
theorem splitsBody {text : List Char} {marks : List Bool} (h : Reads text marks)
    {opening closing : Nat} (hpair : BodyPair text marks opening closing)
    (hsplit : splitSqliteTableBody text =
      splitBody ((text.drop (opening + 1)).take (closing - opening - 1))) :
    SplitsBody text marks opening closing := by
  obtain ⟨⟨hopening, hmark⟩, -⟩ := hpair.first
  obtain ⟨k, rfl, hfirst⟩ := (isMatch_iff hopening hmark closing 0 none).mp hpair.closed
  obtain ⟨ch, hch, hclosing, -⟩ := hfirst.1
  have hbody := (h.behind hmark).take hclosing
  have hlength : opening + 1 + k - opening - 1 = k := by omega
  rw [hlength] at hsplit
  refine ⟨_, hsplit.trans (splitBody_reads hbody), ?_, fun i => ?_⟩
  · rw [hlength]
    exact intercalate_segmentsOf hbody.length_eq 0 []
  · rw [mem_commas_segmentsOf hbody.length_eq]
    have hinside : ∀ {α : Type} (l : List α) j, j < k →
        ((l.drop (opening + 1)).take k)[j]? = l[opening + 1 + j]? := by
      intro α l j hj
      rw [List.getElem?_take_of_lt hj, List.getElem?_drop]
    constructor
    · rintro ⟨j, rfl, hcomma, hmarked, hdepth⟩
      obtain ⟨hlt, -⟩ := List.getElem?_eq_some_iff.mp hcomma
      have hj : j < k := lt_of_lt_of_le hlt (List.length_take_le _ _)
      rw [hinside text j hj] at hcomma
      rw [hinside marks j hj] at hmarked
      rw [stateAt_take depthStep 0 _ _ hj.le] at hdepth
      rw [List.length_nil, Nat.add_zero]
      refine ⟨by omega, by omega, hcomma, hmarked, ?_⟩
      rw [Nat.add_sub_cancel_left]
      exact hdepth
    · rintro ⟨hgt, hlt, hcomma, hmarked, hdepth⟩
      obtain ⟨j, rfl⟩ : ∃ j, i = opening + 1 + j := ⟨i - (opening + 1), by omega⟩
      have hj : j < k := by omega
      refine ⟨j, rfl, (hinside text j hj).trans hcomma, (hinside marks j hj).trans hmarked, ?_⟩
      rw [stateAt_take depthStep 0 _ _ hj.le]
      rwa [Nat.add_sub_cancel_left] at hdepth

theorem next_rest {c : Cursor} {ch : Char} {rest : List Char} (h : c.rest = ch :: rest) :
    c.next.rest = rest := by
  unfold Cursor.next
  rw [h]

/-- Where the first loop stops if it reads a text as the other scanners do. -/
theorem findTableBody_cases {text : List Char} {marks : List Bool} (h : Reads text marks)
    (hheader : tableBodyMarks none false false text <+: marks) :
    (∃ opening c, findTableBody none false false 0 none text = some c ∧ c.pos = opening ∧
        c.rest = text.drop opening ∧ IsFirst (Opening text marks) opening) ∨
      findTableBody none false false 0 none text = none ∧ ∀ k, ¬Opening text marks k := by
  obtain ⟨k, c, hfind, hpos, hrest, hfirst⟩ | ⟨hnone, hlength, hno⟩ :=
    findTableBody_spec none false false text 0 none
  · have hlt : k < (tableBodyMarks none false false text).length :=
      (List.getElem?_eq_some_iff.mp hfirst.1.2).1
    have hsame : ∀ j ≤ k, Opening text marks j ↔
        Opening text (tableBodyMarks none false false text) j := by
      intro j hj
      obtain ⟨more, hmore⟩ := hheader
      unfold Opening
      rw [← hmore, List.getElem?_append_left (by omega)]
    refine .inl ⟨k, c, hfind, by omega, hrest, (hsame k le_rfl).mpr hfirst.1, fun j hj hopen => ?_⟩
    exact hfirst.2 j hj ((hsame j hj.le).mp hopen)
  · have heq := hheader.eq_of_length (hlength.trans h.length_eq.symm)
    rw [heq] at hno
    exact .inr ⟨hnone, hno⟩

/-- On a plain header all scanners agree. -/
theorem scannersAgree_of_header {text : List Char} {marks : List Bool} (h : Reads text marks)
    (hheader : tableBodyMarks none false false text <+: marks) : ScannersAgree text marks := by
  have hcursor : ∀ i ≤ text.length, (Cursor.start text).advance i = cursorAt 0 none text i :=
    fun i hi => advance_eq text hi 0 none
  refine ⟨h, fun opening hopening closing => ?_, fun keyword hkeyword start hstart found => ?_,
    fun opening closing hpair => ?_, fun hno => ?_, hheader⟩
  · obtain ⟨hlt, -⟩ := List.getElem?_eq_some_iff.mp hopening.1
    rw [hcursor opening hlt.le]
    exact findSqlMatchingParen_iff h hopening.1 hopening.2 (Nat.zero_add opening) rfl closing
  · have hreads : start ≤ text.length ∧ Reads (text.drop start) (marks.drop start) := by
      obtain rfl | hmark := hstart
      · exact ⟨Nat.zero_le _, h⟩
      · obtain ⟨hlt, -⟩ := List.getElem?_eq_some_iff.mp hmark
        exact ⟨h.length_eq ▸ hlt.le, h.drop hmark⟩
    rw [hcursor start hreads.1]
    exact findSqlKeywordTopLevel_iff hreads.1 hreads.2 hkeyword found
  · refine splitsBody h hpair ?_
    obtain ⟨opening', c, hfind, hpos, hrest, hfirst⟩ | ⟨-, hnone⟩ := findTableBody_cases h hheader
    · obtain rfl := hfirst.unique hpair.first
      have hmatch := (findSqlMatchingParen_iff h hfirst.1.1 hfirst.1.2 hpos hrest closing).mpr
        hpair.closed
      obtain ⟨close, hclose, rfl⟩ := Option.map_eq_some_iff.mp hmatch
      have hnext : c.next.rest = text.drop (opening' + 1) := by
        obtain ⟨hlt, -⟩ := List.getElem?_eq_some_iff.mp hfirst.1.1
        have hcons : c.rest = text[opening'] :: text.drop (opening' + 1) := by
          rw [hrest, List.drop_eq_getElem_cons hlt]
        exact next_rest hcons
      unfold splitSqliteTableBody
      rw [hfind]
      dsimp only
      rw [hclose]
      dsimp only
      rw [hnext, hpos]
    · exact absurd hpair.first.1 (hnone opening)
  · obtain ⟨opening, c, hfind, hpos, hrest, hfirst⟩ | ⟨hnone, -⟩ := findTableBody_cases h hheader
    · have hclosed : findSqlMatchingParen c = none := by
        by_contra hsome
        obtain ⟨close, hclose⟩ := Option.ne_none_iff_exists'.mp hsome
        refine hno ⟨opening, close.pos, hfirst, ?_⟩
        refine (findSqlMatchingParen_iff h hfirst.1.1 hfirst.1.2 hpos hrest close.pos).mp ?_
        rw [hclose]
        rfl
      unfold splitSqliteTableBody
      rw [hfind]
      dsimp only
      rw [hclosed]
    · unfold splitSqliteTableBody
      rw [hnone]

/-- The scanners agree on a text if and only if no comment stands in front of the first parenthesis
    outside of quotes and brackets, and no `]` is doubled in a name there. -/
theorem scanners_agree_iff (text : List Char) :
    (∃ marks, ScannersAgree text marks) ↔ PlainHeader text := by
  constructor
  · rintro ⟨marks, h⟩
    exact plainHeader_of_prefix h.reads h.header
  · intro h
    obtain ⟨marks, hmarks, hheader⟩ := h.marks
    exact ⟨marks, scannersAgree_of_header hmarks hheader⟩

/-- A table whose definition begins with a comment. -/
def commentedTable : List Char := "CREATE TABLE t /* ( */ (a, b)".toList

/-- The first loop takes the parenthesis in the comment for the one of the body, which is then not
    closed. -/
theorem comment_hides_body : splitSqliteTableBody commentedTable = [] ∧
    ¬∃ marks, ScannersAgree commentedTable marks := by
  refine ⟨by decide +kernel, ?_⟩
  rintro ⟨marks, h⟩
  -- the first character of the comment, as the first loop and as the other scanners read it
  have hloop : (tableBodyMarks none false false commentedTable)[15]? = some true := by
    decide +kernel
  have hmark : marks[15]? = some true := by
    obtain ⟨more, hmore⟩ := h.header
    obtain ⟨hlt, -⟩ := List.getElem?_eq_some_iff.mp hloop
    rw [← hmore, List.getElem?_append_left hlt, hloop]
  have hstop := (Reads.runMarked_stopAt h.reads.length_eq 15 0 none).mpr ⟨Nat.zero_le _, hmark⟩
  rw [← scanCode_reads h.reads] at hstop
  exact absurd hstop (by decide +kernel)

end MetalOrm.Native.Ddl
