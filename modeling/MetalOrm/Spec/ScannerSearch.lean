import MetalOrm.Spec.SqlReading
import MetalOrm.Spec.SqlSearch

/-!
# What the scanners find

`find_sql_matching_paren` finds the parenthesis where the depth is zero again,
`find_sql_keyword_top_level` the first word outside of parentheses, and the last loop of
`split_sqlite_table_body` cuts a text at its commas outside of parentheses.

## Key results

- `runMarked_search`: a scanner that looks for something finds it where it is first
- `findSqlMatchingParen_iff`, `findSqlKeywordTopLevel_iff`, `splitBody_reads`: the three scanners
-/

namespace MetalOrm.Native.Ddl

/-! ## Looking for a position -/

/-- The first position of a kind. -/
def IsFirst (p : Nat → Prop) (i : Nat) : Prop := p i ∧ ∀ j < i, ¬p j

theorem IsFirst.succ {p : Nat → Prop} {i : Nat} (h : IsFirst (fun i => p (i + 1)) i) (hzero : ¬p 0) :
    IsFirst p (i + 1) := by
  refine ⟨h.1, fun j hj => ?_⟩
  cases j with
  | zero => exact hzero
  | succ j => exact h.2 j (by omega)

theorem IsFirst.unique {p : Nat → Prop} {i j : Nat} (hi : IsFirst p i) (hj : IsFirst p j) :
    i = j := by
  obtain hlt | rfl | hgt := lt_trichotomy i j
  · exact absurd hi.1 (hj.2 i hlt)
  · rfl
  · exact absurd hj.1 (hi.2 j hgt)

section Search

variable {σ : Type}

/-- The state of a scanner in front of a position, if nothing has stopped it. -/
def stateAt (advance : σ → Char → σ) (s : σ) (text : List Char) (marks : List Bool) (k : Nat) : σ :=
  ((text.zip marks).take k).foldl (fun s p => if p.2 then advance s p.1 else s) s

/-- A position of a text. -/
def cursorAt (pos : Nat) (prev : Option Char) (text : List Char) (k : Nat) : Cursor :=
  ⟨pos + k, lastOf (text.take k) prev, text.drop k⟩

/-- A scanner that stops where it finds something. -/
structure Searches (step : σ → Cursor → Char → σ ⊕ Cursor) (advance : σ → Char → σ)
    (hit : σ → Cursor → Char → Prop) : Prop where
  found : ∀ s c ch, hit s c ch → step s c ch = .inr c
  other : ∀ s c ch, ¬hit s c ch → step s c ch = .inl (advance s ch)

/-- What a scanner looks for, at a position. -/
def HitAt (advance : σ → Char → σ) (hit : σ → Cursor → Char → Prop) (s : σ) (pos : Nat)
    (prev : Option Char) (text : List Char) (marks : List Bool) (k : Nat) : Prop :=
  ∃ ch, text[k]? = some ch ∧ marks[k]? = some true ∧
    hit (stateAt advance s text marks k) (cursorAt pos prev text k) ch

variable {step : σ → Cursor → Char → σ ⊕ Cursor} {advance : σ → Char → σ}
  {hit : σ → Cursor → Char → Prop}

theorem stateAt_cons (s : σ) (ch : Char) (mark : Bool) (text : List Char) (marks : List Bool)
    (k : Nat) : stateAt advance s (ch :: text) (mark :: marks) (k + 1) =
      stateAt advance (if mark then advance s ch else s) text marks k :=
  rfl

theorem cursorAt_cons (pos : Nat) (prev : Option Char) (ch : Char) (text : List Char) (k : Nat) :
    cursorAt pos prev (ch :: text) (k + 1) = cursorAt (pos + 1) (some ch) text k := by
  rw [cursorAt, cursorAt, List.take_succ_cons, List.drop_succ_cons, lastOf_cons, Nat.add_assoc,
    Nat.add_comm 1]

/-- A scanner finds what it looks for where that is first. -/
theorem runMarked_search (law : Searches step advance hit) {text : List Char} {marks : List Bool}
    (hlength : marks.length = text.length) (s : σ) (pos : Nat) (prev : Option Char) :
    (∃ k, runMarked step s pos prev text marks = .inr (cursorAt pos prev text k) ∧
        IsFirst (HitAt advance hit s pos prev text marks) k) ∨
      (∃ s', runMarked step s pos prev text marks = .inl s') ∧
        ∀ k, ¬HitAt advance hit s pos prev text marks k := by
  induction text generalizing marks s pos prev with
  | nil =>
    refine .inr ⟨⟨s, by cases marks <;> rfl⟩, ?_⟩
    rintro k ⟨ch, hch, -⟩
    cases hch
  | cons ch text ih =>
    cases marks with
    | nil => cases hlength
    | cons mark marks =>
      have hlength' : marks.length = text.length := Nat.succ.inj hlength
      have hlater : ∀ k, HitAt advance hit s pos prev (ch :: text) (mark :: marks) (k + 1) ↔
          HitAt advance hit (if mark then advance s ch else s) (pos + 1) (some ch) text marks k := by
        intro k
        unfold HitAt
        rw [stateAt_cons, cursorAt_cons, List.getElem?_cons_succ, List.getElem?_cons_succ]
      have hnext : runMarked step s pos prev (ch :: text) (mark :: marks) =
            runMarked step (if mark then advance s ch else s) (pos + 1) (some ch) text marks →
          ¬HitAt advance hit s pos prev (ch :: text) (mark :: marks) 0 →
          (∃ k, runMarked step s pos prev (ch :: text) (mark :: marks) =
              .inr (cursorAt pos prev (ch :: text) k) ∧
            IsFirst (HitAt advance hit s pos prev (ch :: text) (mark :: marks)) k) ∨
          (∃ s', runMarked step s pos prev (ch :: text) (mark :: marks) = .inl s') ∧
            ∀ k, ¬HitAt advance hit s pos prev (ch :: text) (mark :: marks) k := by
        intro hrun hzero
        rw [hrun]
        obtain ⟨k, hk, hfirst⟩ | ⟨hnone, hno⟩ :=
          ih hlength' (if mark then advance s ch else s) (pos + 1) (some ch)
        · refine .inl ⟨k + 1, by rw [hk, cursorAt_cons], IsFirst.succ ?_ hzero⟩
          exact ⟨(hlater k).mpr hfirst.1, fun j hj h => hfirst.2 j hj ((hlater j).mp h)⟩
        · refine .inr ⟨hnone, fun k => ?_⟩
          cases k with
          | zero => exact hzero
          | succ k => exact fun h => hno k ((hlater k).mp h)
      cases mark with
      | false =>
        refine hnext rfl ?_
        rintro ⟨_, -, hmark, -⟩
        cases hmark
      | true =>
        by_cases hhit : hit s ⟨pos, prev, ch :: text⟩ ch
        · refine .inl ⟨0, ?_, ⟨ch, rfl, rfl, hhit⟩, fun j hj => absurd hj (Nat.not_lt_zero j)⟩
          rw [runMarked, law.found _ _ _ hhit]
          rfl
        · refine hnext ?_ ?_
          · rw [runMarked, law.other _ _ _ hhit]
            rfl
          · rintro ⟨_, hch, -, h⟩
            obtain rfl := Option.some.inj hch
            exact hhit h

end Search

/-! ## Parentheses -/

/-- How a character outside of quotes, brackets and comments changes the depth. -/
def depthStep (depth : Nat) (ch : Char) : Nat :=
  if ch = '(' then depth + 1 else if ch = ')' then depth - 1 else depth

/-- How many parentheses are open in front of a position. -/
def depthAt (text : List Char) (marks : List Bool) (k : Nat) : Nat :=
  stateAt depthStep 0 text marks k

/-- The parenthesis that closes another one: behind it the depth is zero again. -/
def IsMatch (text : List Char) (marks : List Bool) (opening closing : Nat) : Prop :=
  opening ≤ closing ∧ IsFirst
    (fun k => depthAt (text.drop opening) (marks.drop opening) (k + 1) = 0) (closing - opening)

theorem parenStep_searches :
    Searches parenStep depthStep fun depth _ ch => ch = ')' ∧ depth = 1 where
  found depth c ch h := by
    obtain ⟨rfl, rfl⟩ := h
    rfl
  other depth c ch h := by
    unfold parenStep depthStep
    split
    · rfl
    · split
      · rename_i hclose
        rw [if_neg fun hdepth => h ⟨hclose, hdepth⟩]
      · rfl

theorem stateAt_succ {σ : Type} (advance : σ → Char → σ) (s : σ) (text : List Char)
    (marks : List Bool) (k : Nat) :
    (∃ ch mark, text[k]? = some ch ∧ marks[k]? = some mark ∧ stateAt advance s text marks (k + 1) =
        if mark then advance (stateAt advance s text marks k) ch else stateAt advance s text marks k) ∨
      (text.zip marks)[k]? = none ∧
        stateAt advance s text marks (k + 1) = stateAt advance s text marks k := by
  unfold stateAt
  rw [List.take_add_one, List.foldl_append]
  cases hzip : (text.zip marks)[k]? with
  | none => exact .inr ⟨rfl, rfl⟩
  | some p =>
    obtain ⟨hch, hmark⟩ := List.getElem?_zip_eq_some.mp hzip
    exact .inl ⟨p.1, p.2, hch, hmark, rfl⟩

/-- Only a closing parenthesis makes a positive depth zero. -/
theorem depthStep_eq_zero {depth : Nat} {ch : Char} (hdepth : 0 < depth)
    (h : depthStep depth ch = 0) : ch = ')' ∧ depth = 1 := by
  unfold depthStep at h
  split at h
  · omega
  · split at h
    · exact ⟨‹_›, by omega⟩
    · omega

/-- In front of the closing parenthesis the depth is positive. -/
theorem stateAt_pos_of_no_hit {depth pos : Nat} {prev : Option Char} {text : List Char}
    {marks : List Bool} (hdepth : 0 < depth) {k : Nat}
    (h : ∀ j < k, ¬HitAt depthStep (fun depth _ ch => ch = ')' ∧ depth = 1) depth pos prev text
      marks j) : 0 < stateAt depthStep depth text marks k := by
  induction k with
  | zero => exact hdepth
  | succ k ih =>
    have hpos := ih fun j hj => h j (by omega)
    obtain ⟨ch, mark, hch, hmark, heq⟩ | ⟨-, heq⟩ := stateAt_succ depthStep depth text marks k
    · rw [heq]
      cases mark with
      | false => exact hpos
      | true =>
        refine Nat.pos_of_ne_zero fun hzero => ?_
        exact h k (Nat.lt_succ_self k) ⟨ch, hch, hmark, depthStep_eq_zero hpos hzero⟩
    · rw [heq]
      exact hpos

/-- The depth is zero first behind the first parenthesis that closes the outermost one. -/
theorem isFirst_zero_iff {depth pos : Nat} {prev : Option Char} {text : List Char}
    {marks : List Bool} (hdepth : 0 < depth) (k : Nat) :
    IsFirst (fun k => stateAt depthStep depth text marks (k + 1) = 0) k ↔
      IsFirst (HitAt depthStep (fun depth _ ch => ch = ')' ∧ depth = 1) depth pos prev text
        marks) k := by
  have hzero : ∀ j, HitAt depthStep (fun depth _ ch => ch = ')' ∧ depth = 1) depth pos prev text
      marks j → stateAt depthStep depth text marks (j + 1) = 0 := by
    rintro j ⟨ch, hch, hmark, rfl, hone⟩
    obtain ⟨ch', mark, hch', hmark', heq⟩ | ⟨hnone, -⟩ := stateAt_succ depthStep depth text marks j
    · obtain rfl := Option.some.inj (hch.symm.trans hch')
      obtain rfl := Option.some.inj (hmark.symm.trans hmark')
      rw [heq, if_pos rfl, hone]
      rfl
    · have hzip : (text.zip marks)[j]? = some (')', true) :=
        List.getElem?_zip_eq_some.mpr ⟨hch, hmark⟩
      cases hzip.symm.trans hnone
  constructor
  · rintro ⟨hk, hbefore⟩
    have hno : ∀ j < k, ¬HitAt depthStep (fun depth _ ch => ch = ')' ∧ depth = 1) depth pos prev text
        marks j := fun j hj h => hbefore j hj (hzero j h)
    have hpos := stateAt_pos_of_no_hit hdepth hno
    refine ⟨?_, hno⟩
    obtain ⟨ch, mark, hch, hmark, heq⟩ | ⟨-, heq⟩ := stateAt_succ depthStep depth text marks k
    · rw [heq] at hk
      cases mark with
      | false => exact absurd hk (by rw [if_neg Bool.false_ne_true]; omega)
      | true =>
        rw [if_pos rfl] at hk
        exact ⟨ch, hch, hmark, depthStep_eq_zero hpos hk⟩
    · omega
  · rintro ⟨hk, hbefore⟩
    refine ⟨hzero k hk, fun j hj h => ?_⟩
    have hpos : 0 < stateAt depthStep depth text marks (j + 1) :=
      stateAt_pos_of_no_hit hdepth fun i hi => hbefore i (by omega)
    omega

/-! ## Positions of a text -/

theorem advance_eq (text : List Char) {i : Nat} (hi : i ≤ text.length) (pos : Nat)
    (prev : Option Char) : Cursor.advance ⟨pos, prev, text⟩ i = cursorAt pos prev text i := by
  induction i generalizing text pos prev with
  | zero => rfl
  | succ i ih =>
    cases text with
    | nil => exact absurd hi (by simp)
    | cons ch text =>
      rw [Cursor.advance, cursorAt_cons]
      exact ih text (Nat.le_of_succ_le_succ hi) _ _

/-- A parenthesis is closed where a scanner that begins behind it finds the end. -/
theorem isMatch_iff {text : List Char} {marks : List Bool} {opening : Nat}
    (hopening : text[opening]? = some '(') (hmark : marks[opening]? = some true) (closing pos : Nat)
    (prev : Option Char) : IsMatch text marks opening closing ↔ ∃ k, closing = opening + 1 + k ∧
      IsFirst (HitAt depthStep (fun depth _ ch => ch = ')' ∧ depth = 1) 1 pos prev
        (text.drop (opening + 1)) (marks.drop (opening + 1))) k := by
  have hdrop : text.drop opening = '(' :: text.drop (opening + 1) := by
    obtain ⟨hlt, heq⟩ := List.getElem?_eq_some_iff.mp hopening
    rw [List.drop_eq_getElem_cons hlt, heq]
  have hmarks : marks.drop opening = true :: marks.drop (opening + 1) := by
    obtain ⟨hlt, heq⟩ := List.getElem?_eq_some_iff.mp hmark
    rw [List.drop_eq_getElem_cons hlt, heq]
  unfold IsMatch
  rw [hdrop, hmarks]
  -- the depth behind the opening parenthesis is one
  have hone : ¬depthAt ('(' :: text.drop (opening + 1)) (true :: marks.drop (opening + 1)) (0 + 1) =
      0 := Nat.one_ne_zero
  constructor
  · rintro ⟨hle, hfirst⟩
    obtain rfl | hlt := Nat.eq_or_lt_of_le hle
    · rw [Nat.sub_self] at hfirst
      exact absurd hfirst.1 hone
    · refine ⟨closing - opening - 1, by omega, (isFirst_zero_iff Nat.one_pos _).mp ?_⟩
      rw [show closing - opening = closing - opening - 1 + 1 by omega] at hfirst
      exact ⟨hfirst.1, fun j hj => hfirst.2 (j + 1) (by omega)⟩
  · rintro ⟨k, rfl, hk⟩
    refine ⟨by omega, ?_⟩
    rw [show opening + 1 + k - opening = k + 1 by omega]
    exact IsFirst.succ ((isFirst_zero_iff Nat.one_pos k).mpr hk) hone

/-- `find_sql_matching_paren` finds the parenthesis that closes another one. -/
theorem findSqlMatchingParen_iff {text : List Char} {marks : List Bool} (h : Reads text marks)
    {opening : Nat} (hopening : text[opening]? = some '(') (hmark : marks[opening]? = some true)
    {c : Cursor} (hpos : c.pos = opening) (hrest : c.rest = text.drop opening) (closing : Nat) :
    (findSqlMatchingParen c).map (·.pos) = some closing ↔ IsMatch text marks opening closing := by
  have hdrop : text.drop opening = '(' :: text.drop (opening + 1) := by
    obtain ⟨hlt, heq⟩ := List.getElem?_eq_some_iff.mp hopening
    rw [List.drop_eq_getElem_cons hlt, heq]
  have hinner := h.behind hmark
  have hscan : findSqlMatchingParen c =
      (scanCode parenStep .code false 1 (c.pos + 1) (some '(') (text.drop (opening + 1))).elim
        (fun _ => none) some := by
    rw [← findSqlMatchingParen_open c.pos c.prev, ← hdrop, ← hrest]
  rw [hscan, scanCode_reads hinner, hpos, isMatch_iff hopening hmark closing (opening + 1) (some '(')]
  obtain ⟨k, hrun, hfirst⟩ | ⟨⟨s, hrun⟩, hno⟩ :=
    runMarked_search parenStep_searches hinner.length_eq 1 (opening + 1) (some '(')
  · rw [hrun]
    refine ⟨fun heq => ⟨k, (Option.some.inj heq).symm, hfirst⟩, ?_⟩
    rintro ⟨j, rfl, hj⟩
    rw [hj.unique hfirst]
    rfl
  · rw [hrun]
    refine ⟨(fun heq => by cases heq), ?_⟩
    rintro ⟨k, -, hk, -⟩
    exact absurd hk (hno k)

/-! ## Words -/

/-- A word of a text: no letter, digit or underscore stands beside it. -/
def WholeWord (text keyword : List Char) (i : Nat) : Prop :=
  ∃ before word after, text = before ++ (word ++ after) ∧ before.length = i ∧
    word.map Char.toUpper = keyword.map Char.toUpper ∧
    before.getLast?.any sqlIdentifierChar = false ∧ after.head?.any sqlIdentifierChar = false

theorem sqlKeywordAt_iff (text : List Char) {i : Nat} (hi : i ≤ text.length) (keyword : String) :
    sqlKeywordAt (cursorAt 0 none text i) keyword = true ↔ WholeWord text keyword.toList i := by
  have hprev : (cursorAt 0 none text i).prev = (text.take i).getLast? := Option.or_none
  have hrest : (cursorAt 0 none text i).rest = text.drop i := rfl
  unfold sqlKeywordAt
  rw [hprev, hrest]
  constructor
  · intro h
    split at h
    · cases h
    · split at h
      · cases h
      · split at h
        · cases h
        · rename_i hlength hbefore hafter
          refine ⟨text.take i, (text.drop i).take keyword.toList.length,
            (text.drop i).drop keyword.toList.length, ?_, List.length_take_of_le hi,
            of_decide_eq_true h, Bool.not_eq_true _ ▸ hbefore, Bool.not_eq_true _ ▸ hafter⟩
          rw [List.take_append_drop, List.take_append_drop]
  · rintro ⟨before, word, after, rfl, rfl, hword, hbefore, hafter⟩
    have hlength : keyword.toList.length = word.length := by
      have := congrArg List.length hword
      rwa [List.length_map, List.length_map, eq_comm] at this
    rw [List.take_left, List.drop_left, hlength, List.take_left, List.drop_left, hbefore, hafter,
      if_neg (by simp), if_neg Bool.false_ne_true, if_neg Bool.false_ne_true]
    exact decide_eq_true hword

/-- What a keyword is made of. -/
def KeywordText (keyword : String) : Prop :=
  keyword.toList ≠ [] ∧ ∀ ch ∈ keyword.toList, sqlIdentifierChar ch = true

/-- A word outside of quotes, brackets, comments and parentheses. -/
def KeywordAt (text : List Char) (marks : List Bool) (start : Nat) (keyword : String) (k : Nat) :
    Prop :=
  marks[start + k]? = some true ∧ depthAt (text.drop start) (marks.drop start) k = 0 ∧
    WholeWord text keyword.toList (start + k)

theorem keywordStep_searches (keyword : String) :
    Searches (keywordStep keyword) depthStep fun depth c ch =>
      ch ≠ '(' ∧ ch ≠ ')' ∧ depth = 0 ∧ sqlKeywordAt c keyword = true where
  found depth c ch h := by
    obtain ⟨hopen, hclose, rfl, hkeyword⟩ := h
    rw [keywordStep, if_neg hopen, if_neg hclose, if_pos (by simp [hkeyword])]
  other depth c ch h := by
    unfold keywordStep depthStep
    split
    · rfl
    · split
      · rfl
      · rename_i hopen hclose
        rw [if_neg]
        simp only [Bool.and_eq_true, decide_eq_true_eq]
        rintro ⟨hdepth, hkeyword⟩
        exact h ⟨hopen, hclose, hdepth, hkeyword⟩

theorem sqlIdentifierChar_toUpper {ch : Char} (h : sqlIdentifierChar ch = true) :
    sqlIdentifierChar ch.toUpper = true := by
  unfold Char.toUpper
  split
  · rename_i hlower
    obtain ⟨hge, hle⟩ := hlower
    rw [UInt32.le_iff_toNat_le] at hge hle
    have ha : ('a' : Char).val.toNat = 97 := rfl
    have hz : ('z' : Char).val.toNat = 122 := rfl
    have hA : ('A' : Char).val.toNat = 65 := rfl
    have hZ : ('Z' : Char).val.toNat = 90 := rfl
    have hshift : ('A'.val - 'a'.val).toNat = 2 ^ 32 - 32 := rfl
    -- a small letter becomes a capital
    have hupper : 'A'.val ≤ ch.val + ('A'.val - 'a'.val) ∧
        ch.val + ('A'.val - 'a'.val) ≤ 'Z'.val := by
      rw [UInt32.le_iff_toNat_le, UInt32.le_iff_toNat_le, UInt32.toNat_add, hshift]
      omega
    simp only [sqlIdentifierChar, Char.isAlphanum, Char.isAlpha, Char.isUpper, Bool.or_eq_true,
      decide_eq_true_eq]
    exact .inl (.inl (.inl hupper))
  · exact h

/-- A keyword does not begin with a parenthesis. -/
theorem not_paren_of_wholeWord {text : List Char} {keyword : String}
    (hkeyword : KeywordText keyword) {i : Nat} (h : WholeWord text keyword.toList i) {ch : Char}
    (hch : text[i]? = some ch) : ch ≠ '(' ∧ ch ≠ ')' := by
  obtain ⟨before, word, after, rfl, rfl, hword, -⟩ := h
  obtain ⟨hne, hall⟩ := hkeyword
  obtain ⟨first, keyword', heq⟩ := List.exists_cons_of_ne_nil hne
  rw [heq] at hword hall
  cases word with
  | nil => cases hword
  | cons first' word =>
    rw [List.getElem?_append_right le_rfl, Nat.sub_self] at hch
    obtain rfl := Option.some.inj hch
    have hupper : first'.toUpper = first.toUpper := (List.cons.inj hword).1
    have hfirst := sqlIdentifierChar_toUpper (hall first List.mem_cons_self)
    rw [← hupper] at hfirst
    exact ordinary_ne_paren (ordinary_of_identifierChar (sqlIdentifierChar_of_toUpper hfirst))

/-- `find_sql_keyword_top_level` finds a word where it is first. -/
theorem findSqlKeywordTopLevel_iff {text : List Char} {marks : List Bool} {start : Nat}
    (hstart : start ≤ text.length) (h : Reads (text.drop start) (marks.drop start))
    {keyword : String} (hkeyword : KeywordText keyword) (found : Nat) :
    (findSqlKeywordTopLevel (cursorAt 0 none text start) keyword).map (·.pos) = some found ↔
      ∃ k, found = start + k ∧ IsFirst (KeywordAt text marks start keyword) k := by
  have hcursor : ∀ k, cursorAt start (lastOf (text.take start) none) (text.drop start) k =
      cursorAt 0 none text (start + k) := by
    intro k
    unfold cursorAt
    rw [List.drop_drop, List.take_add, lastOf_append, Nat.zero_add]
  have hhit : ∀ k, HitAt depthStep (fun depth c ch =>
        ch ≠ '(' ∧ ch ≠ ')' ∧ depth = 0 ∧ sqlKeywordAt c keyword = true) 0 start
        (lastOf (text.take start) none) (text.drop start) (marks.drop start) k ↔
      KeywordAt text marks start keyword k := by
    intro k
    unfold HitAt KeywordAt
    rw [hcursor, List.getElem?_drop, List.getElem?_drop]
    constructor
    · rintro ⟨ch, hch, hmark, -, -, hdepth, hword⟩
      obtain ⟨hlt, -⟩ := List.getElem?_eq_some_iff.mp hch
      exact ⟨hmark, hdepth, (sqlKeywordAt_iff text hlt.le keyword).mp hword⟩
    · rintro ⟨hmark, hdepth, hword⟩
      have hlength := h.length_eq
      have hlt : start + k < text.length := by
        obtain ⟨hlt, -⟩ := List.getElem?_eq_some_iff.mp hmark
        rw [List.length_drop, List.length_drop] at hlength
        omega
      have hch : text[start + k]? = some text[start + k] := List.getElem?_eq_getElem hlt
      obtain ⟨hopen, hclose⟩ := not_paren_of_wholeWord hkeyword hword hch
      exact ⟨_, hch, hmark, hopen, hclose, hdepth, (sqlKeywordAt_iff text hlt.le keyword).mpr hword⟩
  unfold findSqlKeywordTopLevel
  have hrun := @scanCode_reads _ _ (keywordStep keyword) _ _ h 0 start (lastOf (text.take start) none)
  have hpos : (cursorAt 0 none text start).pos = start := Nat.zero_add start
  have hprev : (cursorAt 0 none text start).prev = lastOf (text.take start) none := rfl
  have hrest : (cursorAt 0 none text start).rest = text.drop start := rfl
  rw [hpos, hprev, hrest, hrun]
  obtain ⟨k, hk, hfirst⟩ | ⟨⟨s, hnone⟩, hno⟩ := runMarked_search (keywordStep_searches keyword)
    h.length_eq 0 start (lastOf (text.take start) none)
  · rw [hk]
    have hfirst' : IsFirst (KeywordAt text marks start keyword) k :=
      ⟨(hhit k).mp hfirst.1, fun j hj hkey => hfirst.2 j hj ((hhit j).mpr hkey)⟩
    refine ⟨fun heq => ⟨k, (Option.some.inj heq).symm, hfirst'⟩, ?_⟩
    rintro ⟨j, rfl, hj⟩
    rw [hj.unique hfirst']
    rfl
  · rw [hnone]
    refine ⟨(fun heq => by cases heq), ?_⟩
    rintro ⟨k, -, hk, -⟩
    exact absurd ((hhit k).mpr hk) (hno k)

/-! ## Segments -/

/-- A text cut at its commas outside of parentheses; the first segment is begun. -/
def segmentsOf (depth : Nat) (current : List Char) : List Char → List Bool → List (List Char)
  | ch :: rest, mark :: marks =>
    if mark && ch = ',' && depth = 0 then current :: segmentsOf 0 [] rest marks
    else segmentsOf (if mark then depthStep depth ch else depth) (current ++ [ch]) rest marks
  | _, _ => [current]

/-- The positions of the commas between segments. -/
def commas (pos : Nat) : List (List Char) → List Nat
  | [] => []
  | [_] => []
  | segment :: other :: others =>
    (pos + segment.length) :: commas (pos + segment.length + 1) (other :: others)

section

variable {text : List Char} {marks : List Bool}

theorem segmentsOf_ne_nil (depth : Nat) (current : List Char) :
    segmentsOf depth current text marks ≠ [] := by
  induction text generalizing marks depth current with
  | nil => cases marks <;> exact List.cons_ne_nil _ _
  | cons ch text ih =>
    cases marks with
    | nil => exact List.cons_ne_nil _ _
    | cons mark marks =>
      rw [segmentsOf]
      split
      · exact List.cons_ne_nil _ _
      · exact ih _ _

/-- The segments and the commas between them are the text. -/
theorem intercalate_segmentsOf (hlength : marks.length = text.length) (depth : Nat)
    (current : List Char) :
    [','].intercalate (segmentsOf depth current text marks) = current ++ text := by
  induction text generalizing marks depth current with
  | nil =>
    obtain rfl := List.length_eq_zero_iff.mp hlength
    simp [segmentsOf]
  | cons ch text ih =>
    cases marks with
    | nil => cases hlength
    | cons mark marks =>
      have hlength' : marks.length = text.length := Nat.succ.inj hlength
      rw [segmentsOf]
      split
      · rename_i hcomma
        simp only [Bool.and_eq_true, decide_eq_true_eq] at hcomma
        rw [List.intercalate_cons_of_ne_nil (segmentsOf_ne_nil 0 []), ih hlength' 0 [], hcomma.1.2,
          List.append_assoc]
        rfl
      · rw [ih hlength', List.append_assoc, List.singleton_append]

/-- The commas that are left out stand outside of parentheses, and all these are left out. -/
theorem mem_commas_segmentsOf (hlength : marks.length = text.length) (depth pos : Nat)
    (current : List Char) (i : Nat) : i ∈ commas pos (segmentsOf depth current text marks) ↔
      ∃ k, i = pos + current.length + k ∧ text[k]? = some ',' ∧ marks[k]? = some true ∧
        stateAt depthStep depth text marks k = 0 := by
  induction text generalizing marks depth pos current with
  | nil =>
    obtain rfl := List.length_eq_zero_iff.mp hlength
    simp [segmentsOf, commas]
  | cons ch text ih =>
    cases marks with
    | nil => cases hlength
    | cons mark marks =>
      have hlength' : marks.length = text.length := Nat.succ.inj hlength
      rw [segmentsOf]
      split
      · rename_i hcomma
        simp only [Bool.and_eq_true, decide_eq_true_eq] at hcomma
        obtain ⟨⟨rfl, rfl⟩, rfl⟩ := hcomma
        have hlater := ih hlength' 0 (pos + current.length + 1) []
        obtain ⟨segment, others, heq⟩ := List.exists_cons_of_ne_nil
          (@segmentsOf_ne_nil text marks 0 [])
        rw [heq] at hlater ⊢
        rw [commas, List.mem_cons, hlater]
        constructor
        · rintro (rfl | ⟨k, rfl, h⟩)
          · exact ⟨0, rfl, rfl, rfl, rfl⟩
          · exact ⟨k + 1, by rw [List.length_nil]; omega, h⟩
        · rintro ⟨k, rfl, h⟩
          cases k with
          | zero => exact .inl rfl
          | succ k => exact .inr ⟨k, by rw [List.length_nil]; omega, h⟩
      · rename_i hcomma
        rw [ih hlength', List.length_append, List.length_singleton]
        constructor
        · rintro ⟨k, rfl, h⟩
          exact ⟨k + 1, by omega, h⟩
        · rintro ⟨k, rfl, hch, hmark, hdepth⟩
          cases k with
          | zero =>
            obtain rfl := Option.some.inj hch
            obtain rfl := Option.some.inj hmark
            obtain rfl : depth = 0 := hdepth
            exact absurd rfl hcomma
          | succ k => exact ⟨k, by omega, hch, hmark, hdepth⟩

/-- A character that does not end a segment. -/
theorem splitStep_other {depth : Nat} {ch : Char} (h : ¬(ch = ',' ∧ depth = 0)) (start c : Cursor)
    (result : List (List Char)) :
    splitStep ⟨depth, start, result⟩ c ch = .inl ⟨depthStep depth ch, start, result⟩ := by
  unfold splitStep depthStep
  split
  · rfl
  · simp only [Bool.and_eq_true, decide_eq_true_eq]
    rw [if_neg h]
    by_cases hclose : ch = ')'
    · cases depth with
      | zero => rw [if_neg (by omega), if_pos hclose]
      | succ depth => rw [if_pos ⟨hclose, Nat.succ_pos _⟩, if_pos hclose]
    · rw [if_neg fun h => hclose h.1, if_neg hclose]

/-- What the last loop of `split_sqlite_table_body` adds to the segments it has. -/
theorem runMarked_split (hlength : marks.length = text.length) (depth : Nat) (start : Cursor)
    (current : List Char) (result : List (List Char)) (prev : Option Char)
    (hstart : start.rest = current ++ text) :
    ∃ s, runMarked splitStep ⟨depth, start, result⟩ (start.pos + current.length) prev text marks =
        .inl s ∧
      s.result ++ [trimSqlView s.start.rest] =
        result ++ (segmentsOf depth current text marks).map trimSqlView := by
  induction text generalizing marks depth start current result prev with
  | nil =>
    obtain rfl := List.length_eq_zero_iff.mp hlength
    rw [List.append_nil] at hstart
    exact ⟨_, rfl, by rw [hstart]; rfl⟩
  | cons ch text ih =>
    cases marks with
    | nil => cases hlength
    | cons mark marks =>
      have hlength' : marks.length = text.length := Nat.succ.inj hlength
      have hnext := fun depth => ih hlength' depth start (current ++ [ch]) result (some ch)
        (by rw [hstart, List.append_assoc]; rfl)
      rw [List.length_append, List.length_singleton, ← Nat.add_assoc] at hnext
      cases mark with
      | false => exact hnext depth
      | true =>
        by_cases hcomma : ch = ',' ∧ depth = 0
        · obtain ⟨rfl, rfl⟩ := hcomma
          have htake : start.rest.take (start.pos + current.length - start.pos) = current := by
            rw [hstart, Nat.add_sub_cancel_left, List.take_left]
          obtain ⟨s, hs, hresult⟩ := ih hlength' 0 ⟨start.pos + current.length + 1, some ',', text⟩
            [] (result ++ [trimSqlView current]) (some ',') rfl
          refine ⟨s, ?_, ?_⟩
          · rw [runMarked, splitStep]
            simp only [htake]
            exact hs
          · rw [hresult, List.append_assoc]
            rfl
        · have hstep := splitStep_other hcomma start ⟨start.pos + current.length, prev, ch :: text⟩
            result
          obtain ⟨s, hs, hresult⟩ := hnext (depthStep depth ch)
          refine ⟨s, ?_, ?_⟩
          · rw [runMarked, hstep]
            exact hs
          · rw [hresult, segmentsOf, if_neg (by simpa using hcomma)]
            rfl

end

/-- `split_sqlite_table_body` trims the segments of the body. -/
theorem splitBody_reads {body : List Char} {marks : List Bool} (h : Reads body marks) :
    splitBody body = (segmentsOf 0 [] body marks).map trimSqlView := by
  obtain ⟨s, hs, hresult⟩ := runMarked_split h.length_eq 0 (.start body) [] [] none rfl
  have hscan := (@scanCode_reads _ _ splitStep _ _ h ⟨0, .start body, []⟩ 0 none).trans hs
  unfold splitBody
  rw [hscan]
  exact hresult

end MetalOrm.Native.Ddl
