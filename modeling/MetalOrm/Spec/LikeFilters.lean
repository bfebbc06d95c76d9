import MetalOrm.Spec.RelationFilterSemantics
import MetalOrm.ForStd.Like

/-!
# String filters

What the predicates of `contains`, `starts_with` and `ends_with` accept on a database whose `LIKE`
has the wildcards `%` and `_` and no escape character. The text of a filter is put into the pattern
as it is, so it is looked for literally just if it has neither of them.

## Key results

- `asciiLower_spells`: `ascii_lower` on a text in UTF-8
- `string_filter_literal_iff`: when a string filter accepts the values in which its text occurs
-/

namespace MetalOrm.Native.Query

open ForStd

/-! ## Texts -/

/-- The bytes of a text in UTF-8. -/
def utf8 (text : List Char) : List UInt8 := text.flatMap String.utf8EncodeChar

/-- The value is the text. -/
def Spells (v : Value) (text : List Char) : Prop := ∃ s, v = .string s ∧ s.bytes = utf8 text

/-- `%` and `_`. -/
def likeWildcards : Like.Wildcards Char where
  any := '%'
  one := '_'
  any_ne_one := by decide

/-- The database compares texts with `LIKE` as the standard says, and `LOWER` folds ASCII letters. -/
structure Engine.StandardLike (engine : Engine) : Prop where
  like_text : ∀ {a b : Cell} {value pattern : List Char}, Spells a.value value →
    Spells b.value pattern → engine.like a b = some (Like.run likeWildcards pattern value)
  like_null : ∀ {a b : Cell}, a.value = .null → engine.like a b = none
  lower_text : ∀ {a : Cell} {value : List Char}, Spells a.value value →
    Spells (engine.lower a) (value.map Char.toLower)
  lower_null : ∀ {a : Cell}, a.value = .null → engine.lower a = .null

/-- Whether the predicate, as the WHERE clause of a query over the table, accepts a row. -/
def ExprNode.accepts (e : ExprNode Value) (T : TypeIndex) (engine : Engine) (table : String)
    (row : Tuple) : Bool :=
  match e.condition? T "t" with
  | some c => (c.eval engine (fun _ => []) [("t", table, row)]).holds
  | none => false

theorem accepts_of_expresses {T : TypeIndex} {e : ExprNode Value}
    {test : Engine → String → Tuple → Bool} (h : Expresses T e test) (engine : Engine)
    (table : String) (row : Tuple) : e.accepts T engine table row = test engine table row := by
  obtain ⟨c, hc, -, heval⟩ := h "t"
  simp only [ExprNode.accepts, hc]
  exact heval engine _ _ table row (by simp)

/-! ## What a string filter asks for -/

/-- The text as the mode compares it. -/
def folded : StringFilterMode → List Char → List Char
  | .insensitive, text => text.map Char.toLower
  | .defaultMode, text => text

/-- Where the text has to be in the value. -/
def Occurs (op : FilterOperator) (text value : List Char) : Prop :=
  match op with
  | .startsWith => text <+: value
  | .endsWith => text <:+ value
  | _ => text <:+: value

/-- The clause looks for a text in strings. -/
def FilterOperator.isString : FilterOperator → Bool
  | .contains | .startsWith | .endsWith => true
  | _ => false

/-- The pattern of a string filter. -/
def patternText (op : FilterOperator) (text : List Char) : List Char :=
  match op with
  | .contains => '%' :: (text ++ ['%'])
  | .startsWith => text ++ ['%']
  | _ => '%' :: text

/-! ### UTF-8 -/

theorem utf8_append (a b : List Char) : utf8 (a ++ b) = utf8 a ++ utf8 b := List.flatMap_append

theorem utf8_percent_cons (text : List Char) : utf8 ('%' :: text) = 37 :: utf8 text := by
  rw [utf8, List.flatMap_cons, show String.utf8EncodeChar '%' = [37] by decide]
  rfl

theorem utf8_percent : utf8 ['%'] = [37] := utf8_percent_cons []

theorem length_utf8 (text : List Char) :
    (utf8 text).length = (text.map fun c => (String.utf8EncodeChar c).length).sum := by
  rw [utf8, List.length_flatMap]

theorem toLowerByte_of_ge {b : UInt8} (h : 128 ≤ b.toNat) : toLowerByte b = b := by
  unfold toLowerByte
  rw [if_neg]
  rintro ⟨-, hle⟩
  have hle' := UInt8.le_iff_toNat_le.mp hle
  have h90 : (90 : UInt8).toNat = 90 := rfl
  omega

theorem toLowerByte_ofNat {n : Nat} (h : n < 128) :
    toLowerByte (UInt8.ofNat n) = UInt8.ofNat (if 65 ≤ n ∧ n ≤ 90 then n + 32 else n) := by
  revert n
  decide

theorem toNat_toLower (c : Char) :
    c.toLower.toNat = if 65 ≤ c.toNat ∧ c.toNat ≤ 90 then c.toNat + 32 else c.toNat := by
  have hupper : (c.val ≥ 'A'.val ∧ c.val ≤ 'Z'.val) ↔ 65 ≤ c.toNat ∧ c.toNat ≤ 90 := by
    simp only [ge_iff_le, UInt32.le_iff_toNat_le]
    exact Iff.rfl
  unfold Char.toLower
  split
  · rename_i h
    rw [if_pos (hupper.mp h)]
    show (c.val + 32).toNat = c.val.toNat + 32
    have hle : c.val.toNat ≤ 90 := (hupper.mp h).2
    have h32 : (32 : UInt32).toNat = 32 := rfl
    rw [UInt32.toNat_add, h32]
    omega
  · rename_i h
    rw [if_neg fun hrange => h (hupper.mpr hrange)]

theorem toLower_toLower (c : Char) : c.toLower.toLower = c.toLower := by
  apply Char.toNat_inj.mp
  rw [toNat_toLower c.toLower, if_neg]
  rw [toNat_toLower c]
  split <;> omega

/-- Only the first 128 characters have bytes that `ascii_lower` may change. -/
theorem utf8EncodeChar_toLower (c : Char) :
    (String.utf8EncodeChar c).map toLowerByte = String.utf8EncodeChar c.toLower := by
  have hlower := toNat_toLower c
  by_cases hascii : c.toNat < 128
  · have hc : String.utf8EncodeChar c = [UInt8.ofNat c.toNat] := by
      unfold String.utf8EncodeChar
      exact if_pos (by show c.toNat ≤ 127; omega)
    have hc' : String.utf8EncodeChar c.toLower = [UInt8.ofNat c.toLower.toNat] := by
      unfold String.utf8EncodeChar
      refine if_pos (show c.toLower.toNat ≤ 127 from ?_)
      rw [hlower]
      split <;> omega
    rw [hc, hc', List.map_singleton, toLowerByte_ofNat hascii, hlower]
  · have hsame : c.toLower = c := by
      apply Char.toNat_inj.mp
      rw [hlower, if_neg (by omega)]
    rw [hsame]
    -- all bytes of such a character have the highest bit
    have hbytes : ∀ b ∈ String.utf8EncodeChar c, 128 ≤ b.toNat := by
      intro b hb
      unfold String.utf8EncodeChar at hb
      simp only [show ¬c.val.toNat ≤ 127 from fun h => hascii (Nat.lt_succ_of_le h), if_false] at hb
      split at hb
      · simp only [List.mem_cons, List.not_mem_nil, or_false] at hb
        obtain rfl | rfl := hb <;> simp only [UInt8.toNat_ofNat'] <;> omega
      · split at hb
        · simp only [List.mem_cons, List.not_mem_nil, or_false] at hb
          obtain rfl | rfl | rfl := hb <;> simp only [UInt8.toNat_ofNat'] <;> omega
        · simp only [List.mem_cons, List.not_mem_nil, or_false] at hb
          obtain rfl | rfl | rfl | rfl := hb <;> simp only [UInt8.toNat_ofNat'] <;> omega
    calc (String.utf8EncodeChar c).map toLowerByte
        = (String.utf8EncodeChar c).map id :=
          List.map_congr_left fun b hb => toLowerByte_of_ge (hbytes b hb)
      _ = String.utf8EncodeChar c := List.map_id _

theorem map_toLowerByte_utf8 (text : List Char) :
    (utf8 text).map toLowerByte = utf8 (text.map Char.toLower) := by
  rw [utf8, utf8, List.map_flatMap, List.flatMap_map]
  exact congrArg (List.flatMap · text) (funext utf8EncodeChar_toLower)

/-- Letters are one byte long in both cases. -/
theorem length_utf8_map_toLower (text : List Char) :
    (utf8 (text.map Char.toLower)).length = (utf8 text).length := by
  rw [← map_toLowerByte_utf8, List.length_map]

/-! ### Patterns -/

theorem spells_string {s : ByteString} {text : List Char} :
    Spells (.string s) text ↔ s.bytes = utf8 text := by
  constructor
  · rintro ⟨s', h, hs'⟩
    cases h
    exact hs'
  · exact fun h => ⟨s, rfl, h⟩

theorem asciiLower_spells {s : ByteString} {text : List Char} (h : s.bytes = utf8 text) :
    (asciiLower s).bytes = utf8 (text.map Char.toLower) := by
  rw [← map_toLowerByte_utf8, ← h]
  rfl

theorem bytes_of_byteString {bytes : List UInt8} {s : ByteString} (h : byteString bytes = .ok s) :
    s.bytes = bytes := by
  unfold byteString at h
  split at h
  · cases h
    rfl
  · cases h

theorem likePattern_spells {op : FilterOperator} {s pattern : ByteString} {text : List Char}
    (hs : s.bytes = utf8 text) (h : likePattern op s = .ok pattern) :
    pattern.bytes = utf8 (patternText op text) := by
  cases op with
  | contains =>
    rw [bytes_of_byteString h, hs, patternText, utf8_percent_cons, utf8_append, utf8_percent]
    rfl
  | startsWith => rw [bytes_of_byteString h, hs, patternText, utf8_append, utf8_percent]
  | _ => exact (bytes_of_byteString h).trans (by rw [hs]; exact (utf8_percent_cons text).symm)

theorem toLower_percent : Char.toLower '%' = '%' := by decide

theorem patternText_map_toLower (op : FilterOperator) (text : List Char) :
    (patternText op text).map Char.toLower = patternText op (text.map Char.toLower) := by
  unfold patternText
  split <;> simp [toLower_percent]

/-- Only a wildcard becomes a wildcard. -/
theorem literal_folded (mode : StringFilterMode) (text : List Char) :
    Like.Literal likeWildcards (folded mode text) ↔ Like.Literal likeWildcards text := by
  cases mode with
  | defaultMode => rfl
  | insensitive =>
    have hne : ∀ c d : Char, d.toNat < 65 ∨ d.toNat = 95 → (c.toLower = d ↔ c = d) := by
      intro c d hd
      rw [← Char.toNat_inj, ← Char.toNat_inj, toNat_toLower]
      split <;> omega
    have hpercent := fun c => hne c '%' (.inl (by decide))
    have hunderscore := fun c => hne c '_' (.inr (by decide))
    unfold Like.Literal
    rw [folded, List.forall_mem_map]
    simp only [likeWildcards, ne_eq, hpercent, hunderscore]

theorem folded_patternText (mode : StringFilterMode) (op : FilterOperator) (text : List Char) :
    folded mode (patternText op text) = patternText op (folded mode text) := by
  cases mode with
  | defaultMode => rfl
  | insensitive => exact patternText_map_toLower op text

/-! ### Matching -/

/-- A pattern of a text without wildcards looks for the text. -/
theorem run_patternText {op : FilterOperator} (hop : op.isString = true) {text : List Char}
    (h : Like.Literal likeWildcards text) (value : List Char) :
    Like.run likeWildcards (patternText op text) value = true ↔ Occurs op text value := by
  cases op <;> try cases hop
  · exact Like.matches_around h value
  · exact Like.matches_before h value
  · exact Like.matches_behind h value

/-- What matches the text matches its patterns. -/
theorem run_patternText_of_run {text value : List Char} (op : FilterOperator)
    (h : Like.run likeWildcards text value = true) :
    Like.run likeWildcards (patternText op text) value = true := by
  unfold patternText
  split
  · exact Like.run_behind (Like.run_before h)
  · exact Like.run_before h
  · exact Like.run_behind h

theorem Occurs.isInfix {op : FilterOperator} {text value : List Char} (h : Occurs op text value) :
    text <:+: value := by
  unfold Occurs at h
  split at h
  · exact h.isInfix
  · exact h.isInfix
  · exact h

/-! ## String filters -/

section

variable {T : TypeIndex} {member : ColumnMember} {clause : FilterClause} {e : ExprNode Value}
  {engine : Engine} {text : List Char}

theorem FilterOperator.eq_of_isString {op : FilterOperator} (h : op.isString = true) :
    op = .contains ∨ op = .startsWith ∨ op = .endsWith := by
  cases op <;> simp_all [isString]

/-- What a string clause asks of a row. -/
theorem satisfied_string (hop : clause.op.isString = true) {s : ByteString}
    (hs : clause.value = .string s) (table : String) (row : Tuple) :
    clause.satisfied engine table member row =
      match clause.mode with
      | .insensitive => (engine.like
          { value := engine.lower (cellOf table row member.column) }
          { value := .string (asciiLower (patternOf clause s)) }).holds
      | .defaultMode => (engine.like (cellOf table row member.column)
          { value := .string (patternOf clause s) }).holds := by
  unfold FilterClause.satisfied
  obtain hclause | hclause | hclause := FilterOperator.eq_of_isString hop <;>
    simp only [hclause, hs] <;> cases clause.mode <;> rfl

/-- The pattern that the predicate of a string filter has. -/
theorem exists_pattern (hop : clause.op.isString = true) (htext : Spells clause.value text)
    (hbuild : buildMemberFilter T member clause = .ok e) :
    ∃ s, clause.value = .string s ∧
      (patternOf clause s).bytes = utf8 (patternText clause.op text) := by
  obtain ⟨s, hvalue, hs⟩ := htext
  refine ⟨s, hvalue, ?_⟩
  have hfilter : stringFilter (.column ⟨T, member.column⟩) member.type clause = .ok e := by
    unfold buildMemberFilter at hbuild
    obtain hclause | hclause | hclause := FilterOperator.eq_of_isString hop <;>
      simpa only [hclause] using hbuild
  unfold stringFilter at hfilter
  rw [hvalue] at hfilter
  cases htype : member.type <;> simp only [htype] at hfilter
  case string =>
    obtain ⟨pattern, hpattern, -⟩ := except_bind_ok hfilter
    simp only [patternOf, hpattern]
    exact likePattern_spells hs hpattern
  all_goals cases hfilter

/-- What the predicate of a string filter accepts, in terms of the matcher. -/
theorem accepts_string (hop : clause.op.isString = true) (htext : Spells clause.value text)
    (hbuild : buildMemberFilter T member clause = .ok e) (hengine : engine.StandardLike)
    (table : String) {row : Tuple} {value : List Char}
    (hvalue : Spells (row member.column) value) :
    e.accepts T engine table row = Like.run likeWildcards
      (patternText clause.op (folded clause.mode text)) (folded clause.mode value) := by
  obtain ⟨s, hs, hpattern⟩ := exists_pattern hop htext hbuild
  rw [accepts_of_expresses (expresses_buildMemberFilter hbuild), satisfied_string hop hs,
    ← folded_patternText]
  cases clause.mode with
  | defaultMode =>
    have hlike := hengine.like_text (a := cellOf table row member.column)
      (b := { value := .string (patternOf clause s) }) hvalue (spells_string.mpr hpattern)
    simp only [hlike, Truth.holds_some, folded]
  | insensitive =>
    have hlower := hengine.lower_text (a := cellOf table row member.column) hvalue
    have hlike := hengine.like_text (a := { value := engine.lower (cellOf table row member.column) })
      (b := { value := .string (asciiLower (patternOf clause s)) }) hlower
      (spells_string.mpr (asciiLower_spells hpattern))
    simp only [hlike, Truth.holds_some, folded]

/-- A null is not accepted. -/
theorem accepts_string_null (hop : clause.op.isString = true) (htext : Spells clause.value text)
    (hbuild : buildMemberFilter T member clause = .ok e) (hengine : engine.StandardLike)
    (table : String) {row : Tuple} (hnull : row member.column = .null) :
    e.accepts T engine table row = false := by
  obtain ⟨s, hs, -⟩ := htext
  rw [accepts_of_expresses (expresses_buildMemberFilter hbuild), satisfied_string hop hs]
  have hcell : (cellOf table row member.column).value = .null := hnull
  cases clause.mode with
  | defaultMode => simp [hengine.like_null hcell]
  | insensitive =>
    have hlower : ({ value := engine.lower (cellOf table row member.column) } : Cell).value = .null :=
      hengine.lower_null hcell
    simp [hengine.like_null hlower]

/-- The predicate of a string filter accepts just the values in which its text occurs, up to the
    case of ASCII letters in the insensitive mode, if and only if the text has no wildcard. -/
theorem string_filter_literal_iff (hop : clause.op.isString = true)
    (htext : Spells clause.value text) (hbuild : buildMemberFilter T member clause = .ok e)
    (hengine : engine.StandardLike) :
    (∀ table row, (row member.column = .null → e.accepts T engine table row = false) ∧
      ∀ value, Spells (row member.column) value → (e.accepts T engine table row = true ↔
        Occurs clause.op (folded clause.mode text) (folded clause.mode value))) ↔
      ∀ c ∈ text, c ≠ '%' ∧ c ≠ '_' := by
  constructor
  · intro h
    by_contra hwild
    have hfolded : ¬Like.Literal likeWildcards (folded clause.mode text) :=
      fun hliteral => hwild ((literal_folded clause.mode text).mp hliteral)
    obtain ⟨value, hrun, hinfix, hchars, hsize⟩ :=
      Like.exists_matches_not_infix hfolded (d := 'x') (by decide)
        (fun c => (String.utf8EncodeChar c).length) (by decide)
    -- the value fits in a string, because it is not longer than the text of the filter
    have hlength : (utf8 value).length < 2 ^ 64 := by
      obtain ⟨s, -, hs⟩ := htext
      have hle : (utf8 value).length ≤ (utf8 (folded clause.mode text)).length := by
        rw [length_utf8, length_utf8]
        exact hsize
      have heq : (utf8 (folded clause.mode text)).length = (utf8 text).length := by
        cases clause.mode with
        | defaultMode => rfl
        | insensitive => exact length_utf8_map_toLower text
      have hlt := s.size_lt
      rw [hs] at hlt
      omega
    have hsame : folded clause.mode value = value := by
      cases hmode : clause.mode with
      | defaultMode => rfl
      | insensitive =>
        rw [hmode] at hchars
        refine (List.map_congr_left fun c hc => ?_).trans (List.map_id value)
        obtain hc | rfl := hchars c hc
        · obtain ⟨b, -, rfl⟩ := List.mem_map.mp hc
          exact toLower_toLower b
        · decide
    have hspells : Spells (.string ⟨utf8 value, hlength⟩) value := ⟨_, rfl, rfl⟩
    have hiff := (h "t" fun _ => .string ⟨utf8 value, hlength⟩).2 value hspells
    rw [accepts_string hop htext hbuild hengine "t" hspells, hsame] at hiff
    exact hinfix (hiff.mp (run_patternText_of_run clause.op hrun)).isInfix
  · intro hliteral table row
    refine ⟨accepts_string_null hop htext hbuild hengine table, fun value hvalue => ?_⟩
    rw [accepts_string hop htext hbuild hengine table hvalue]
    exact run_patternText hop ((literal_folded clause.mode text).mpr hliteral) _

end

/-! ## A database with `LIKE` -/

/-- The text of a string. -/
def textOf (s : ByteString) : Option (List Char) := s.bytes.toByteArray.utf8Decode?.map Array.toList

theorem textOf_eq {s : ByteString} {text : List Char} (h : s.bytes = utf8 text) :
    textOf s = some text := by
  have hbytes : s.bytes.toByteArray = text.utf8Encode := by
    rw [h]
    rfl
  rw [textOf, hbytes, List.utf8Decode?_utf8Encode]
  rfl

/-- `LIKE` on two strings. -/
def likeTruth : Value → Value → Truth
  | .string value, .string pattern => do
    return Like.run likeWildcards (← textOf pattern) (← textOf value)
  | _, _ => none

/-- `LOWER`. -/
def lowerValue : Value → Value
  | .string s => .string (asciiLower s)
  | v => v

/-- The database; its comparisons do not matter here. -/
def likeEngine : Engine where
  compare := fun _ _ _ => none
  like a b := likeTruth a.value b.value
  lower a := lowerValue a.value

theorem likeEngine_standard : likeEngine.StandardLike where
  like_text := by
    rintro a b value pattern ⟨s, ha, hs⟩ ⟨p, hb, hp⟩
    simp [likeEngine, likeTruth, ha, hb, textOf_eq hs, textOf_eq hp]
  like_null := by
    intro a b ha
    simp [likeEngine, likeTruth, ha]
  lower_text := by
    rintro a value ⟨s, ha, hs⟩
    exact ⟨asciiLower s, by simp [likeEngine, lowerValue, ha], asciiLower_spells hs⟩
  lower_null := by
    intro a ha
    simp [likeEngine, lowerValue, ha]

/-- The name of a user. -/
def nameMember : ColumnMember where
  name := "name"
  column := "name"
  type := .string

/-- A search for a text in names. -/
def nameContains (text : String) : FilterClause where
  field := "name"
  op := .contains
  value := .string (.ofAscii text)
  mode := .insensitive

/-- The predicate of the search for `An`. -/
def lowerNameLike (pattern : String) : ExprNode Value :=
  .like (.function "LOWER" [.column ⟨0, "name"⟩]) (.value (.string (.ofAscii pattern))) false

theorem string_filter_literal_iff_An :
    (∀ table row, (row nameMember.column = .null →
        (lowerNameLike "%an%").accepts 0 likeEngine table row = false) ∧
      ∀ value, Spells (row nameMember.column) value →
        ((lowerNameLike "%an%").accepts 0 likeEngine table row = true ↔
          Occurs (nameContains "An").op (folded (nameContains "An").mode ['A', 'n'])
            (folded (nameContains "An").mode value))) ↔
      ∀ c ∈ ['A', 'n'], c ≠ '%' ∧ c ≠ '_' :=
  string_filter_literal_iff rfl ⟨_, rfl, by decide⟩ rfl
    likeEngine_standard

/-- A search for `%` finds every name. -/
theorem contains_percent : ¬ ∀ (T : TypeIndex) (member : ColumnMember) (clause : FilterClause)
    (e : ExprNode Value) (engine : Engine) (text : List Char), clause.op.isString = true →
    Spells clause.value text → buildMemberFilter T member clause = .ok e →
    engine.StandardLike → ∀ table row value, Spells (row member.column) value →
      (e.accepts T engine table row = true ↔
        Occurs clause.op (folded clause.mode text) (folded clause.mode value)) := by
  intro h
  have htext : Spells (nameContains "%").value ['%'] := ⟨_, rfl, by decide⟩
  have hbuild : buildMemberFilter 0 nameMember (nameContains "%") =
      .ok (lowerNameLike "%%%") := rfl
  have hvalue : Spells (.string (.ofAscii "Ann")) ['A', 'n', 'n'] := ⟨_, rfl, by decide⟩
  have hiff := h 0 nameMember _ _ likeEngine _ rfl htext hbuild likeEngine_standard "users"
    (fun _ => .string (.ofAscii "Ann")) ['A', 'n', 'n'] hvalue
  rw [accepts_string rfl htext hbuild likeEngine_standard "users" hvalue] at hiff
  have hoccurs : ['%'] <:+: ['a', 'n', 'n'] := hiff.mp (by decide)
  exact absurd (hoccurs.subset List.mem_cons_self) (by decide)

end MetalOrm.Native.Query
