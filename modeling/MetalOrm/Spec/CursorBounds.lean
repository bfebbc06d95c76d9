import MetalOrm.Native.CursorReads
import MetalOrm.Spec.CursorRoundTrip

/-!
# Limits of cursors

What `decode_cursor` does with numbers near the limits of their types. A round of its loop keeps to
the text as long as the announced length does not carry its end past `2 ^ 64`; only then do the
positions grow, and the records end where they say. The other exceptions come from numbers that the
standard conversions do not hold, and from a vector that is too large.

## Key results

- `readRecord_error`, `readRecord_ok`: what a round throws and returns
- `readRecords_keeps`: the loop, while no round breaks the limits
- `decode_bounded_iff`: when `decode_cursor` is bounded
-/

namespace MetalOrm.Native.Cursor.Reads

variable (platform : Platform) {plain : List UInt8} {pos : Nat}

/-! ## What stands in the payload -/

/-- A record opens here: its tag, the text of its length, and what follows the colon. -/
structure Opens (plain : List UInt8) (pos : Nat) (tag : UInt8) (field rest : List UInt8) :
    Prop where
  text : plain.drop pos = tag :: (field ++ 58 :: rest)
  field_colon : 58 ∉ field

/-- A record that announces the length of its text. -/
def IsRecord (bytes : List UInt8) : Prop :=
  ∃ tag field text value, bytes = tag :: (field ++ 58 :: (text ++ [10])) ∧ 58 ∉ field ∧
    stoull field = .ok text.length ∧ parseCursorValue platform tag text = .ok value

/-- So many records, one after the other. -/
inductive Records : Nat → List UInt8 → Prop where
  | nil : Records 0 []
  | cons {count : Nat} {bytes more : List UInt8} : IsRecord platform bytes → Records count more →
      Records (count + 1) (bytes ++ more)

/-- The exception is `std::out_of_range`. -/
def IsRange {α : Type} (result : Except Thrown α) : Prop :=
  ∃ e, result = .error e ∧ e.type = .outOfRange

/-- The record that opens here goes past a limit: its length or its number is out of range, or its
    end wraps to a line break. -/
def Breaks (plain : List UInt8) (pos : Nat) : Prop :=
  ∃ tag field rest, Opens plain pos tag field rest ∧
    (stoull field = .error .range ∨ ∃ length, stoull field = .ok length ∧
      (length ≤ rest.length ∧ IsRange (parseCursorValue platform tag (rest.take length)) ∨
        2 ^ 64 ≤ pos + field.length + 2 + length ∧
          (IsRange (parseCursorValue platform tag rest) ∨
            (∃ value, parseCursorValue platform tag rest = .ok value) ∧
              plain[pos + field.length + 2 + length - 2 ^ 64]? = some 10)))

/-- No record breaks a limit, as far as the records before it are right. -/
def Keeps (plain : List UInt8) (count pos : Nat) : Prop :=
  ∀ before < count, ∀ bytes rest, Records platform before bytes → plain.drop pos = bytes ++ rest →
    ¬Breaks platform plain (pos + bytes.length)

/-- The lines before the records: the version, the signature and the number of values. -/
structure HasHeader (plain signature line rest : List UInt8) : Prop where
  text : plain = 50 :: 10 :: (signature ++ 10 :: (line ++ 10 :: rest))
  signature_line : 10 ∉ signature
  count_line : 10 ∉ line

/-- The payload keeps to the limits: a vector can be reserved for the number of values that is
    announced, and none of the records that are read goes past a limit. -/
def WithinLimits (plain : List UInt8) : Prop :=
  ∀ signature line rest, HasHeader plain signature line rest → stoull line ≠ .error .range ∧
    ∀ count, stoull line = .ok count → reserve platform count = .ok () ∧
      Keeps platform plain count (signature.length + line.length + 4)

/-- The records are read one after the other, and each of them ends behind its start. -/
def Advances : Nat → List Record → Prop
  | _, [] => True
  | pos, record :: records => record.start = pos ∧ pos < record.next ∧ Advances record.next records

/-- The text of the record is as long as announced, stands behind a colon and before a line
    break. -/
structure Record.Exact (plain : List UInt8) (record : Record) : Prop where
  length_text : record.text.length = record.length
  text : record.text = (plain.drop record.body).take record.length
  colon : plain[record.body - 1]? = some 58
  newline : plain[record.body + record.length]? = some 10

/-- A call that returns or throws `std::invalid_argument`, reads the texts that are announced and
    goes on after each record. -/
structure Bounded (call : Decoding) : Prop where
  throws : ∀ e, call.outcome = .error e → e.type = .invalidArgument
  count : ∀ cursor, call.outcome = .ok cursor →
    cursor.values = call.records.map (·.value) ∧ cursor.values.length = call.count
  exact : ∀ record ∈ call.records, record.Exact call.plain
  advances : ∃ start, Advances start call.records
  few : call.records.length ≤ call.plain.length

/-! ## One round -/

/-- What a round does behind the colon. -/
def finishRecord (plain : List UInt8) (pos : Nat) (tag : UInt8) (field rest : List UInt8) :
    Except Thrown Record := do
  let length ← (stoull field).mapError (·.thrown "stoull")
  let stop := (pos + field.length + 2 + length) % 2 ^ 64
  if stop > plain.length then .error invalidPayload
  else
    let value ← parseCursorValue platform tag (rest.take length)
    if plain[stop]? = some 10 then
      return { start := pos, length, body := pos + field.length + 2, text := rest.take length,
               value, next := stop + 1 }
    else .error invalidPayload

theorem substrAt_of_drop {text rest : List UInt8} {b : UInt8}
    (h : plain.drop pos = text ++ b :: rest) : substrAt plain pos text.length = .ok text := by
  have hle : pos ≤ plain.length := by
    by_contra hlt
    rw [List.drop_eq_nil_of_le (by omega)] at h
    simp at h
  rw [substrAt, if_pos hle, substr, h, List.take_left]

theorem ok_bind {ε α β : Type} (a : α) (f : α → Except ε β) : (Except.ok a >>= f) = f a := rfl

theorem readRecord_of_opens {tag : UInt8} {field rest : List UInt8}
    (h : Opens plain pos tag field rest) :
    readRecord platform plain pos = finishRecord platform plain pos tag field rest := by
  have htag : plain.drop pos = [tag] ++ (field ++ 58 :: rest) := h.text
  have hfield : plain.drop (pos + 1) = field ++ 58 :: rest := drop_add_of_drop htag
  have hcolon := drop_add_of_drop hfield
  have hrest : plain.drop (pos + 1 + field.length + 1) = rest := drop_succ_of_drop hcolon
  have hpos : pos + 1 + field.length + 1 ≤ plain.length := by
    by_contra hlt
    rw [List.drop_eq_nil_of_le (by omega)] at hcolon
    cases hcolon
  have hfirst : plain[pos]? = some tag := by
    have hhead := congrArg List.head? h.text
    rwa [List.head?_drop] at hhead
  have hbyte : byteAt plain pos = .ok tag := by
    rw [byteAt, hfirst]
  have hsize : pos + 1 + field.length - (pos + 1) = field.length := by omega
  have hbody : pos + 1 + field.length + 1 = pos + field.length + 2 := by omega
  unfold readRecord finishRecord
  rw [if_neg (by omega), hbyte, ok_bind, findByte_of_drop hfield h.field_colon]
  dsimp only
  rw [hsize, substrAt_of_drop hfield]
  show ((stoull field).mapError _ >>= _) = _
  congr 1
  funext length
  rw [hbody]
  split
  · rfl
  · have htext : substrAt plain (pos + field.length + 2) length = .ok (rest.take length) := by
      rw [substrAt, if_pos (by omega), substr, ← hbody, hrest]
    rw [htext]
    show (parseCursorValue platform tag (rest.take length) >>= _) = _
    congr 1
    funext value
    split
    · rename_i hend
      rw [List.getElem?_eq_none (by omega), if_neg (by simp)]
    · rename_i hend
      rw [byteAt, List.getElem?_eq_getElem (by omega)]
      show (if plain[_] = 10 then _ else _) = _
      simp only [Option.some.injEq]

/-- What `find` finds. -/
theorem find_cases (plain : List UInt8) (b : UInt8) (pos : Nat) :
    (∃ before rest, plain.drop pos = before ++ b :: rest ∧ b ∉ before) ∨
      findByte plain b pos = none := by
  by_cases hmem : b ∈ plain.drop pos
  · exact .inl (List.eq_append_cons_of_mem hmem)
  · right
    rw [findByte, List.findIdx?_eq_none_iff.mpr]
    · rfl
    · intro x hx
      simp only [decide_eq_false_iff_not]
      rintro rfl
      exact hmem hx

/-- A record opens, or there is no byte or no colon behind it. -/
theorem opens_cases (plain : List UInt8) (pos : Nat) :
    (∃ tag field rest, Opens plain pos tag field rest) ∨ plain.length ≤ pos ∨
      pos < plain.length ∧ findByte plain 58 (pos + 1) = none := by
  by_cases hpos : plain.length ≤ pos
  · exact .inr (.inl hpos)
  · obtain ⟨field, rest, hfield, hnot⟩ | hfind := find_cases plain 58 (pos + 1)
    · left
      refine ⟨plain[pos], field, rest, ?_, hnot⟩
      rw [← hfield]
      exact List.drop_eq_getElem_cons (by omega)
    · exact .inr (.inr ⟨by omega, hfind⟩)

theorem readRecord_of_length_le (h : plain.length ≤ pos) :
    readRecord platform plain pos = .error invalidPayload := by
  rw [readRecord, if_pos h]

theorem readRecord_of_find_none (h : pos < plain.length)
    (hfind : findByte plain 58 (pos + 1) = none) :
    readRecord platform plain pos = .error invalidPayload := by
  rw [readRecord, if_neg (by omega), byteAt, List.getElem?_eq_getElem h]
  dsimp only
  rw [ok_bind, hfind]

theorem opens_or_rejected (plain : List UInt8) (pos : Nat) :
    (∃ tag field rest, Opens plain pos tag field rest) ∨
      readRecord platform plain pos = .error invalidPayload := by
  obtain hopens | hpos | ⟨hpos, hfind⟩ := opens_cases plain pos
  · exact .inl hopens
  · exact .inr (readRecord_of_length_le platform hpos)
  · exact .inr (readRecord_of_find_none platform hpos hfind)

theorem Opens.length_eq {tag : UInt8} {field rest : List UInt8}
    (h : Opens plain pos tag field rest) :
    plain.length = pos + field.length + 2 + rest.length := by
  have hlength := congrArg List.length h.text
  simp only [List.length_drop, List.length_cons, List.length_append] at hlength
  omega

theorem stoull_lt {field : List UInt8} {length : Nat} (h : stoull field = .ok length) :
    length < 2 ^ 64 := by
  unfold stoull at h
  split at h
  · cases h
  · split at h
    · cases h
      split <;> omega
    · cases h

/-- A conversion throws one of two exceptions. -/
theorem thrown_type (function : String) (e : NumberError) :
    (e.thrown function).type = .invalidArgument ∨
      (e.thrown function).type = .outOfRange ∧ e = .range := by
  cases e with
  | invalid => exact .inl rfl
  | range => exact .inr ⟨rfl, rfl⟩

theorem parseCursorValue_error {tag : UInt8} {text : List UInt8} (htext : text.length < 2 ^ 64)
    {e : Thrown} (h : parseCursorValue platform tag text = .error e) :
    e.type = .invalidArgument ∨ e.type = .outOfRange := by
  have hnumber : ∀ {α β : Type} {x : Except NumberError α} {name : String} {f : α → β},
      (x.mapError (·.thrown name)).map f = .error e →
        e.type = .invalidArgument ∨ e.type = .outOfRange := by
    intro α β x name f hx
    cases x with
    | ok a => cases hx
    | error error =>
      cases hx
      exact (thrown_type name error).imp_right And.left
  have hstring : ∀ {f : ByteString → Value}, (stringOf text).map f ≠ .error e := by
    intro f hx
    rw [stringOf, dif_pos htext] at hx
    cases hx
  unfold parseCursorValue at h
  split at h
  · exact hnumber h
  · split at h
    · exact hnumber h
    · split at h
      · exact absurd h hstring
      · split at h
        · left
          split at h
          · cases h
          · split at h <;> cases h
            rfl
        · split at h
          · exact absurd h hstring
          · cases h
            exact .inl rfl

/-- What a round throws: a range error only where the record breaks a limit. -/
theorem readRecord_error (hplain : plain.length < 2 ^ 64) {e : Thrown}
    (h : readRecord platform plain pos = .error e) :
    e.type = .invalidArgument ∨ e.type = .outOfRange ∧ Breaks platform plain pos := by
  obtain ⟨tag, field, rest, hopens⟩ | hrejected := opens_or_rejected platform plain pos
  · have hlength := hopens.length_eq
    rw [readRecord_of_opens platform hopens, finishRecord] at h
    cases hstoull : stoull field with
    | error error =>
      rw [hstoull] at h
      cases h
      refine (thrown_type "stoull" error).imp_right fun herror => ⟨herror.1, ?_⟩
      exact ⟨tag, field, rest, hopens, .inl (herror.2 ▸ hstoull)⟩
    | ok length =>
      have hlt := stoull_lt hstoull
      rw [hstoull] at h
      change (if (pos + field.length + 2 + length) % 2 ^ 64 > plain.length then _ else _) = _ at h
      split at h
      · cases h
        exact .inl rfl
      · rename_i hstop
        cases hparse : parseCursorValue platform tag (rest.take length) with
        | error error =>
          rw [hparse] at h
          cases h
          have htake : (rest.take length).length < 2 ^ 64 := by
            rw [List.length_take]
            omega
          refine (parseCursorValue_error platform htake hparse).imp_right fun hrange => ⟨hrange, ?_⟩
          refine ⟨tag, field, rest, hopens, .inr ⟨length, hstoull, ?_⟩⟩
          by_cases hfits : length ≤ rest.length
          · exact .inl ⟨hfits, e, hparse, hrange⟩
          · -- the end of the text wraps, so the text is all that is left
            rw [List.take_of_length_le (by omega)] at hparse
            exact .inr ⟨by omega, .inl ⟨e, hparse, hrange⟩⟩
        | ok value =>
          rw [hparse] at h
          change (if plain[_]? = some 10 then _ else _) = _ at h
          split at h <;> cases h
          exact .inl rfl
  · rw [hrejected] at h
    cases h
    exact .inl rfl

/-- What a round returns. -/
theorem readRecord_ok {record : Record} (h : readRecord platform plain pos = .ok record) :
    ∃ tag field rest, Opens plain pos tag field rest ∧ stoull field = .ok record.length ∧
      record.start = pos ∧ record.body = pos + field.length + 2 ∧
      record.text = rest.take record.length ∧
      parseCursorValue platform tag record.text = .ok record.value ∧
      plain[(record.body + record.length) % 2 ^ 64]? = some 10 ∧
      record.next = (record.body + record.length) % 2 ^ 64 + 1 := by
  obtain ⟨tag, field, rest, hopens⟩ | hrejected := opens_or_rejected platform plain pos
  · rw [readRecord_of_opens platform hopens, finishRecord] at h
    cases hstoull : stoull field with
    | error error =>
      rw [hstoull] at h
      cases h
    | ok length =>
      rw [hstoull] at h
      change (if (pos + field.length + 2 + length) % 2 ^ 64 > plain.length then _ else _) = _ at h
      split at h
      · cases h
      · obtain ⟨value, hvalue, h⟩ : ∃ value, parseCursorValue platform tag (rest.take length) =
            .ok value ∧ (if plain[(pos + field.length + 2 + length) % 2 ^ 64]? = some 10 then
              Except.ok { start := pos, length, body := pos + field.length + 2,
                          text := rest.take length, value,
                          next := (pos + field.length + 2 + length) % 2 ^ 64 + 1 }
            else Except.error invalidPayload) = Except.ok record := by
          cases hparse : parseCursorValue platform tag (rest.take length) with
          | error error =>
            rw [hparse] at h
            cases h
          | ok value =>
            rw [hparse] at h
            exact ⟨value, rfl, h⟩
        split at h
        · cases h
          exact ⟨tag, field, rest, hopens, hstoull, rfl, rfl, rfl, hvalue, ‹_›, rfl⟩
        · cases h
  · rw [hrejected] at h
    cases h

theorem finishRecord_of_stoull {tag : UInt8} {field rest : List UInt8} {length : Nat}
    (hstoull : stoull field = .ok length)
    (hstop : (pos + field.length + 2 + length) % 2 ^ 64 ≤ plain.length) :
    finishRecord platform plain pos tag field rest = (do
      let value ← parseCursorValue platform tag (rest.take length)
      if plain[(pos + field.length + 2 + length) % 2 ^ 64]? = some 10 then
        return { start := pos, length, body := pos + field.length + 2, text := rest.take length,
                 value, next := (pos + field.length + 2 + length) % 2 ^ 64 + 1 }
      else .error invalidPayload) := by
  rw [finishRecord, hstoull]
  show (if (pos + field.length + 2 + length) % 2 ^ 64 > plain.length then _ else _) = _
  rw [if_neg (by omega)]

theorem finishRecord_of_stop {tag : UInt8} {field rest : List UInt8} {length : Nat}
    (hstoull : stoull field = .ok length)
    (hstop : plain.length < (pos + field.length + 2 + length) % 2 ^ 64) :
    finishRecord platform plain pos tag field rest = .error invalidPayload := by
  rw [finishRecord, hstoull]
  show (if (pos + field.length + 2 + length) % 2 ^ 64 > plain.length then _ else _) = _
  rw [if_pos hstop]

/-- A record that breaks a limit is out of range, or its text is not as long as announced. -/
theorem readRecord_of_breaks (hplain : plain.length < 2 ^ 64) (h : Breaks platform plain pos) :
    IsRange (readRecord platform plain pos) ∨
      ∃ record, readRecord platform plain pos = .ok record ∧
        record.text.length ≠ record.length := by
  obtain ⟨tag, field, rest, hopens, hrange | ⟨length, hstoull, h⟩⟩ := h
  · left
    rw [readRecord_of_opens platform hopens, finishRecord, hrange]
    exact ⟨_, rfl, rfl⟩
  · have hlength := hopens.length_eq
    have hlt := stoull_lt hstoull
    rw [readRecord_of_opens platform hopens]
    obtain ⟨hfits, e, hparse, htype⟩ | ⟨hwraps, h⟩ := h
    · left
      rw [finishRecord_of_stoull platform hstoull (by omega), hparse]
      exact ⟨e, rfl, htype⟩
    · have hmod : (pos + field.length + 2 + length) % 2 ^ 64 =
          pos + field.length + 2 + length - 2 ^ 64 := by omega
      rw [finishRecord_of_stoull platform hstoull (by omega), List.take_of_length_le (by omega),
        hmod]
      obtain ⟨e, hparse, htype⟩ | ⟨⟨value, hparse⟩, hnewline⟩ := h
      · left
        rw [hparse]
        exact ⟨e, rfl, htype⟩
      · right
        rw [hparse]
        show ∃ record, (if plain[_]? = some 10 then _ else _) = _ ∧ _
        rw [if_pos hnewline]
        refine ⟨_, rfl, ?_⟩
        show rest.length ≠ length
        omega

/-- A record that breaks no limit ends where it says. -/
theorem not_wraps_of_readRecord (hplain : plain.length < 2 ^ 64) {record : Record}
    (h : readRecord platform plain pos = .ok record) (hbreaks : ¬Breaks platform plain pos) :
    record.body + record.length < 2 ^ 64 := by
  obtain ⟨tag, field, rest, hopens, hstoull, -, hbody, htext, hparse, hnewline, -⟩ :=
    readRecord_ok platform h
  have hlength := hopens.length_eq
  have hlt := stoull_lt hstoull
  by_contra hwraps
  have hmod : (record.body + record.length) % 2 ^ 64 =
      pos + field.length + 2 + record.length - 2 ^ 64 := by omega
  rw [htext, List.take_of_length_le (by omega)] at hparse
  rw [hmod] at hnewline
  exact hbreaks ⟨tag, field, rest, hopens, .inr ⟨record.length, hstoull,
    .inr ⟨by omega, .inr ⟨⟨record.value, hparse⟩, hnewline⟩⟩⟩⟩

/-- A round that breaks no limit reads a record of the payload. -/
theorem isRecord_of_readRecord (hplain : plain.length < 2 ^ 64) {record : Record}
    (h : readRecord platform plain pos = .ok record) (hbreaks : ¬Breaks platform plain pos) :
    record.Exact plain ∧ record.start = pos ∧ pos < record.next ∧ record.next ≤ plain.length ∧
      ∃ bytes rest, IsRecord platform bytes ∧ plain.drop pos = bytes ++ rest ∧
        record.next = pos + bytes.length := by
  have hwraps := not_wraps_of_readRecord platform hplain h hbreaks
  obtain ⟨tag, field, rest, hopens, hstoull, hstart, hbody, htext, hparse, hnewline, hnext⟩ :=
    readRecord_ok platform h
  have hlength := hopens.length_eq
  rw [Nat.mod_eq_of_lt hwraps] at hnewline hnext
  have hend : record.body + record.length < plain.length := by
    by_contra hle
    rw [List.getElem?_eq_none (by omega)] at hnewline
    cases hnewline
  have hcolon := drop_add_of_drop (show plain.drop pos = (tag :: field) ++ 58 :: rest from hopens.text)
  have hrest : plain.drop record.body = rest := by
    rw [hbody]
    exact drop_succ_of_drop hcolon
  have htextLength : record.text.length = record.length := by
    rw [htext, List.length_take]
    omega
  refine ⟨⟨htextLength, ?_, ?_, hnewline⟩, hstart, by omega, by omega, ?_⟩
  · rw [hrest]
    exact htext
  · have hhead := congrArg List.head? hcolon
    rw [List.head?_drop] at hhead
    rw [hbody]
    exact hhead
  · have hbreak : rest[record.length]? = some 10 := by
      rw [← hrest, List.getElem?_drop]
      exact hnewline
    obtain ⟨hlt, hget⟩ := List.getElem?_eq_some_iff.mp hbreak
    have hsplit : rest = record.text ++ 10 :: rest.drop (record.length + 1) := by
      rw [htext, ← hget, ← List.drop_eq_getElem_cons hlt, List.take_append_drop]
    refine ⟨tag :: (field ++ 58 :: (record.text ++ [10])), rest.drop (record.length + 1),
      ⟨tag, field, record.text, record.value, rfl, hopens.field_colon, ?_, hparse⟩, ?_, ?_⟩
    · rw [htextLength]
      exact hstoull
    · rw [hopens.text]
      conv_lhs => rw [hsplit]
      simp
    · simp only [List.length_cons, List.length_append, List.length_nil]
      omega

/-- A record of the payload is read. -/
theorem readRecord_of_isRecord (hplain : plain.length < 2 ^ 64) {bytes rest : List UInt8}
    (hrecord : IsRecord platform bytes) (h : plain.drop pos = bytes ++ rest) :
    ∃ record, readRecord platform plain pos = .ok record ∧ record.next = pos + bytes.length := by
  obtain ⟨tag, field, text, value, rfl, hcolon, hstoull, hparse⟩ := hrecord
  have hopens : Opens plain pos tag field (text ++ 10 :: rest) := by
    refine ⟨?_, hcolon⟩
    rw [h]
    simp
  have hlength := hopens.length_eq
  simp only [List.length_append, List.length_cons] at hlength
  have hmod : (pos + field.length + 2 + text.length) % 2 ^ 64 = pos + field.length + 2 + text.length :=
    Nat.mod_eq_of_lt (by omega)
  have hnewline : plain[pos + field.length + 2 + text.length]? = some 10 := by
    have htext : plain.drop pos = ((tag :: field) ++ (58 :: text)) ++ 10 :: rest := by
      rw [hopens.text]
      simp
    have hend := drop_add_of_drop htext
    have hpos : pos + ((tag :: field) ++ (58 :: text)).length =
        pos + field.length + 2 + text.length := by
      simp only [List.length_append, List.length_cons]
      omega
    have hhead := congrArg List.head? hend
    rw [List.head?_drop, hpos] at hhead
    exact hhead
  rw [readRecord_of_opens platform hopens, finishRecord_of_stoull platform hstoull (by omega), hmod,
    List.take_left, hparse]
  show ∃ record, (if plain[_]? = some 10 then _ else _) = _ ∧ _
  rw [if_pos hnewline]
  refine ⟨_, rfl, ?_⟩
  simp only [List.length_cons, List.length_append, List.length_nil]
  omega

/-! ## The loop -/

theorem Keeps.tail {count next : Nat} {bytes rest : List UInt8}
    (h : Keeps platform plain (count + 1) pos) (hrecord : IsRecord platform bytes)
    (hdrop : plain.drop pos = bytes ++ rest) (hnext : next = pos + bytes.length) :
    Keeps platform plain count next := by
  intro before hbefore more rest' hmore hdrop'
  have hrest : rest = more ++ rest' := by
    rw [← hdrop', hnext, ← List.drop_drop, hdrop, List.drop_left]
  have hbreaks := h (before + 1) (by omega) (bytes ++ more) rest' (.cons hrecord hmore)
    (by rw [hdrop, hrest, List.append_assoc])
  rw [List.length_append] at hbreaks
  rw [hnext, Nat.add_assoc]
  exact hbreaks

/-- The loop, while no record breaks a limit. -/
theorem readRecords_keeps (hplain : plain.length < 2 ^ 64) (count : Nat) :
    ∀ {pos : Nat}, Keeps platform plain count pos →
      (∀ e, (readRecords platform plain count pos).2 = .error e → e.type = .invalidArgument) ∧
      ((readRecords platform plain count pos).2 = .ok () →
        (readRecords platform plain count pos).1.length = count) ∧
      (∀ record ∈ (readRecords platform plain count pos).1, record.Exact plain) ∧
      Advances pos (readRecords platform plain count pos).1 ∧
      (pos ≤ plain.length →
        pos + (readRecords platform plain count pos).1.length ≤ plain.length) := by
  induction count with
  | zero =>
    intro pos _
    refine ⟨?_, fun _ => rfl, ?_, trivial, id⟩
    · intro e he
      cases he
    · intro record hrecord
      cases hrecord
  | succ count ih =>
    intro pos hkeeps
    have hbreaks : ¬Breaks platform plain pos :=
      hkeeps 0 (by omega) [] (plain.drop pos) .nil rfl
    rw [readRecords]
    cases hread : readRecord platform plain pos with
    | error error =>
      refine ⟨?_, nofun, ?_, trivial, id⟩
      · intro e he
        cases he
        exact (readRecord_error platform hplain hread).resolve_right fun h => hbreaks h.2
      · intro record hrecord
        cases hrecord
    | ok record =>
      obtain ⟨hexact, hstart, hlt, hle, bytes, rest, hrecord, hdrop, hnext⟩ :=
        isRecord_of_readRecord platform hplain hread hbreaks
      obtain ⟨hthrows, hcount, hexacts, hadvances, hfew⟩ :=
        ih (hkeeps.tail platform hrecord hdrop hnext)
      refine ⟨hthrows, fun hok => ?_, ?_, ⟨hstart, hlt, hadvances⟩, fun _ => ?_⟩
      · rw [List.length_cons, hcount hok]
      · exact List.forall_mem_cons.mpr ⟨hexact, hexacts⟩
      · rw [List.length_cons]
        have := hfew hle
        omega

/-- The loop reads the records that stand in the payload. -/
theorem readRecords_of_records (hplain : plain.length < 2 ^ 64) {before : Nat} {bytes : List UInt8}
    (hrecords : Records platform before bytes) :
    ∀ {pos : Nat} {rest : List UInt8} (count : Nat), plain.drop pos = bytes ++ rest →
      ∃ records, readRecords platform plain (before + count) pos =
        (records ++ (readRecords platform plain count (pos + bytes.length)).1,
          (readRecords platform plain count (pos + bytes.length)).2) := by
  induction hrecords with
  | nil =>
    intro pos rest count _
    exact ⟨[], by rw [Nat.zero_add]; rfl⟩
  | @cons before first more hfirst _ ih =>
    intro pos rest count hdrop
    rw [List.append_assoc] at hdrop
    obtain ⟨record, hread, hnext⟩ := readRecord_of_isRecord platform hplain hfirst hdrop
    have hmore : plain.drop record.next = more ++ rest := by
      rw [hnext, ← List.drop_drop, hdrop, List.drop_left]
    obtain ⟨records, hrecords⟩ := ih count hmore
    refine ⟨record :: records, ?_⟩
    rw [Nat.add_right_comm, readRecords, hread]
    dsimp only
    rw [hrecords, hnext, Nat.add_assoc, List.length_append]
    rfl

/-- A loop that reads exact records and throws no range error keeps to the limits. -/
theorem keeps_of_readRecords (hplain : plain.length < 2 ^ 64) {count : Nat}
    (hthrows : ∀ e, (readRecords platform plain count pos).2 = .error e →
      e.type = .invalidArgument)
    (hexact : ∀ record ∈ (readRecords platform plain count pos).1,
      record.text.length = record.length) : Keeps platform plain count pos := by
  intro before hbefore bytes rest hrecords hdrop hbreaks
  obtain ⟨more, rfl⟩ : ∃ more, count = before + (more + 1) := ⟨count - before - 1, by omega⟩
  obtain ⟨records, hread⟩ := readRecords_of_records platform hplain hrecords (more + 1) hdrop
  rw [hread] at hthrows hexact
  rw [readRecords] at hthrows hexact
  obtain ⟨e, he, htype⟩ | ⟨record, hrecord, hlength⟩ := readRecord_of_breaks platform hplain hbreaks
  · rw [he] at hthrows
    rw [hthrows e rfl] at htype
    cases htype
  · rw [hrecord] at hexact
    exact hlength (hexact record (by simp))

/-! ## The header -/

/-- A line, and the position after it. -/
theorem readLine_of_drop {line rest : List UInt8} (h : plain.drop pos = line ++ 10 :: rest)
    (hline : 10 ∉ line) : readLine plain pos = .ok (line, pos + line.length + 1) := by
  have hsize : pos + line.length - pos = line.length := by omega
  rw [readLine, findByte_of_drop h hline]
  dsimp only
  rw [hsize, substrAt_of_drop h]
  rfl

theorem line_or_rejected (plain : List UInt8) (pos : Nat) :
    (∃ line rest, plain.drop pos = line ++ 10 :: rest ∧ 10 ∉ line) ∨
      readLine plain pos = .error invalidPayload := by
  refine (find_cases plain 10 pos).imp_right fun hfind => ?_
  rw [readLine, hfind]

/-- What follows the line of the version. -/
theorem readHeader_of_version {next : Nat} (h : readLine plain 0 = .ok ([50], next)) :
    readHeader plain = (do
      let (signature, pos) ← readLine plain next
      let (line, pos) ← readLine plain pos
      let count ← (stoull line).mapError (·.thrown "stoull")
      return (signature, count, pos)) := by
  unfold readHeader
  rw [h]
  rfl

theorem readHeader_of_hasHeader {signature line rest : List UInt8}
    (h : HasHeader plain signature line rest) :
    readHeader plain = ((stoull line).mapError (·.thrown "stoull")).map fun count =>
      (signature, count, signature.length + line.length + 4) := by
  have hversion : plain.drop 0 = [50] ++ 10 :: (signature ++ 10 :: (line ++ 10 :: rest)) := h.text
  have hsignature := drop_line hversion
  have hline := drop_line hsignature
  rw [readHeader_of_version (readLine_of_drop hversion (by decide)),
    readLine_of_drop hsignature h.signature_line]
  show (readLine plain _ >>= _) = _
  rw [readLine_of_drop hline h.count_line]
  show ((stoull line).mapError _ >>= _) = _
  have hpos : 0 + [(50 : UInt8)].length + 1 + signature.length + 1 + line.length + 1 =
      signature.length + line.length + 4 := by
    simp only [List.length_cons, List.length_nil]
    omega
  cases stoull line with
  | error e => rfl
  | ok count =>
    show Except.ok (signature, count, _) = Except.ok (signature, count, _)
    rw [hpos]

theorem header_or_rejected (plain : List UInt8) :
    (∃ signature line rest, HasHeader plain signature line rest) ∨
      ∃ e, readHeader plain = .error e ∧ e.type = .invalidArgument := by
  obtain ⟨version, afterVersion, hversion, hversionLine⟩ | hrejected := line_or_rejected plain 0
  · by_cases htwo : version = [50]
    · subst htwo
      have hdrop := drop_line hversion
      obtain ⟨signature, afterSignature, hsignature, hsignatureLine⟩ | hrejected :=
        line_or_rejected plain (0 + [(50 : UInt8)].length + 1)
      · have hdrop' := drop_line hsignature
        obtain ⟨line, rest, hline, hcountLine⟩ | hrejected :=
          line_or_rejected plain (0 + [(50 : UInt8)].length + 1 + signature.length + 1)
        · left
          refine ⟨signature, line, rest, ?_, hsignatureLine, hcountLine⟩
          rw [List.drop_zero] at hversion
          rw [hversion, ← hdrop, hsignature, ← hdrop', hline]
          rfl
        · right
          refine ⟨invalidPayload, ?_, rfl⟩
          rw [readHeader_of_version (readLine_of_drop hversion hversionLine),
            readLine_of_drop hsignature hsignatureLine]
          show (readLine plain _ >>= _) = _
          rw [hrejected]
          rfl
      · right
        refine ⟨invalidPayload, ?_, rfl⟩
        rw [readHeader_of_version (readLine_of_drop hversion hversionLine), hrejected]
        rfl
    · right
      refine ⟨⟨.invalidArgument, .ofText "MetalORM: invalid cursor payload version"⟩, ?_, rfl⟩
      unfold readHeader
      rw [readLine_of_drop hversion hversionLine]
      show (if version = [50] then _ else _) = _
      rw [if_neg htwo]
  · right
    refine ⟨invalidPayload, ?_, rfl⟩
    unfold readHeader
    rw [hrejected]
    rfl

/-! ## `decode_cursor` -/

/-- The payload is not longer than the cursor. -/
theorem payload_lt {cursor : ByteString} (h : base64urlDecode cursor.bytes = .ok plain) :
    plain.length < 2 ^ 64 :=
  Nat.lt_of_le_of_lt (length_le_of_decodeFrom _ h) cursor.size_lt

theorem reserve_error {count : Nat} {e : Thrown} (h : reserve platform count = .error e) :
    e.type = .lengthError ∨ e.type = .badAlloc := by
  unfold reserve at h
  split at h
  · cases h
    exact .inl rfl
  · split at h <;> cases h
    exact .inr rfl

/-- A payload whose header is rejected. -/
theorem decodeCursor_of_rejected {cursor : List UInt8} (hplain : base64urlDecode cursor = .ok plain)
    {e : Thrown} (h : readHeader plain = .error e) :
    decodeCursor platform cursor = { plain, outcome := .error e } := by
  rw [decodeCursor, hplain]
  dsimp only
  rw [h]

/-- A payload whose header announces a number of values. -/
theorem decodeCursor_of_header {cursor signature : List UInt8} {count : Nat}
    (hplain : base64urlDecode cursor = .ok plain)
    (h : readHeader plain = .ok (signature, count, pos)) :
    decodeCursor platform cursor = match reserve platform count with
      | .error e => { plain, count, outcome := .error e }
      | .ok () =>
        { plain, count, records := (readRecords platform plain count pos).1,
          outcome := (readRecords platform plain count pos).2.map fun _ =>
            { values := (readRecords platform plain count pos).1.map (·.value), signature } } := by
  cases hreserve : reserve platform count <;> simp only [decodeCursor, hplain, h, hreserve]

/-- A call that has thrown `std::invalid_argument` before it has read a record. -/
theorem bounded_of_rejected {call : Decoding} {e : Thrown} (he : e.type = .invalidArgument)
    (hrecords : call.records = []) (houtcome : call.outcome = .error e) : Bounded call where
  throws := by
    intro e' he'
    rw [houtcome] at he'
    cases he'
    exact he
  count := by
    intro cursor hcursor
    rw [houtcome] at hcursor
    cases hcursor
  exact := by
    intro record hrecord
    rw [hrecords] at hrecord
    cases hrecord
  advances := ⟨0, by rw [hrecords]; trivial⟩
  few := by
    rw [hrecords]
    exact Nat.zero_le _

/-- `decode_cursor` returns or throws `std::invalid_argument`, reads the texts that are announced
    and advances with each record, if and only if the payload keeps to the limits. -/
theorem decode_bounded_iff (cursor : ByteString) :
    Bounded (decodeCursor platform cursor.bytes) ↔
      ∀ plain, base64urlDecode cursor.bytes = .ok plain → WithinLimits platform plain := by
  cases hplain : base64urlDecode cursor.bytes with
  | error e =>
    rw [decodeCursor, hplain]
    exact iff_of_true (bounded_of_rejected rfl rfl rfl) nofun
  | ok plain =>
    have hlength := payload_lt hplain
    obtain ⟨signature, line, rest, hheader⟩ | ⟨e, hrejected, htype⟩ := header_or_rejected plain
    · have hread := readHeader_of_hasHeader hheader
      constructor
      · intro hbounded plain' hplain' signature' line' rest' hheader'
        cases hplain'
        have hread' := readHeader_of_hasHeader hheader'
        cases hstoull : stoull line' with
        | error error =>
          rw [hstoull] at hread'
          rw [decodeCursor_of_rejected platform hplain hread'] at hbounded
          have hinvalid := hbounded.throws _ rfl
          refine ⟨?_, nofun⟩
          rintro hrange
          cases hrange
          cases hinvalid
        | ok count =>
          rw [hstoull] at hread'
          rw [decodeCursor_of_header platform hplain hread'] at hbounded
          refine ⟨nofun, ?_⟩
          rintro count' hcount'
          cases hcount'
          cases hreserve : reserve platform count with
          | error error =>
            rw [hreserve] at hbounded
            have hinvalid := hbounded.throws _ rfl
            obtain htype | htype := reserve_error platform hreserve <;>
              rw [htype] at hinvalid <;> cases hinvalid
          | ok =>
            rw [hreserve] at hbounded
            refine ⟨rfl, keeps_of_readRecords platform hlength ?_ ?_⟩
            · intro e he
              apply hbounded.throws e
              show Except.map _ (readRecords _ _ _ _).2 = _
              rw [he]
              rfl
            · exact fun record hrecord => (hbounded.exact record hrecord).length_text
      · intro hlimits
        obtain ⟨hrange, hcount⟩ := hlimits plain rfl signature line rest hheader
        cases hstoull : stoull line with
        | error error =>
          rw [hstoull] at hread hrange
          rw [decodeCursor_of_rejected platform hplain hread]
          cases error with
          | invalid => exact bounded_of_rejected rfl rfl rfl
          | range => exact absurd rfl hrange
        | ok count =>
          rw [hstoull] at hread
          obtain ⟨hreserve, hkeeps⟩ := hcount count hstoull
          obtain ⟨hthrows, hcounts, hexact, hadvances, hfew⟩ :=
            readRecords_keeps platform hlength count hkeeps
          have hstart : signature.length + line.length + 4 ≤ plain.length := by
            rw [hheader.text]
            simp only [List.length_cons, List.length_append]
            omega
          rw [decodeCursor_of_header platform hplain hread, hreserve]
          refine ⟨?_, ?_, hexact, ⟨_, hadvances⟩, ?_⟩
          · intro e he
            change Except.map _ (readRecords _ _ _ _).2 = _ at he
            cases houtcome : (readRecords platform plain count
                (signature.length + line.length + 4)).2 with
            | error error =>
              rw [houtcome] at he
              cases he
              exact hthrows _ houtcome
            | ok =>
              rw [houtcome] at he
              cases he
          · intro decoded hdecoded
            change Except.map _ (readRecords _ _ _ _).2 = _ at hdecoded
            cases houtcome : (readRecords platform plain count
                (signature.length + line.length + 4)).2 with
            | error error =>
              rw [houtcome] at hdecoded
              cases hdecoded
            | ok =>
              rw [houtcome] at hdecoded
              cases hdecoded
              refine ⟨rfl, ?_⟩
              rw [List.length_map]
              exact hcounts houtcome
          · have := hfew hstart
            show (readRecords _ _ _ _).1.length ≤ plain.length
            omega
    · rw [decodeCursor_of_rejected platform hplain hrejected]
      refine iff_of_true (bounded_of_rejected htype rfl rfl) ?_
      intro plain' hplain' signature line rest hheader
      cases hplain'
      have hread := readHeader_of_hasHeader hheader
      rw [hrejected] at hread
      cases hstoull : stoull line with
      | error error =>
        rw [hstoull] at hread
        cases hread
        refine ⟨?_, nofun⟩
        rintro hrange
        cases hrange
        cases htype
      | ok count =>
        rw [hstoull] at hread
        cases hread

/-- What the loop throws. -/
theorem readRecords_error (hplain : plain.length < 2 ^ 64) {e : Thrown} (count : Nat) :
    ∀ {pos : Nat}, (readRecords platform plain count pos).2 = .error e →
      e.type = .invalidArgument ∨ e.type = .outOfRange := by
  induction count with
  | zero =>
    intro pos h
    cases h
  | succ count ih =>
    intro pos h
    rw [readRecords] at h
    cases hread : readRecord platform plain pos with
    | error error =>
      rw [hread] at h
      cases h
      exact (readRecord_error platform hplain hread).imp_right And.left
    | ok record =>
      rw [hread] at h
      exact ih h

/-- A platform with memory for every vector, asked for no `double`. -/
def largePlatform : Platform where
  stod := fun _ => .error .invalid
  available := fun _ => true

/-- The payload announces `2 ^ 64` values. -/
def hugeCount : ByteString := .ofAscii "MgoKMTg0NDY3NDQwNzM3MDk1NTE2MTYK"

/-- The payload announces two values, and has one, of length `2 ^ 64 - 23`. -/
def hugeLength : ByteString := .ofAscii "MgoKMgpzMTg0NDY3NDQwNzM3MDk1NTE1OTM6eA"

/-- A count out of range is thrown as `std::out_of_range`; a length whose end wraps is read as a
    shorter text, and read once more. -/
theorem decode_unbounded :
    (decodeCursor largePlatform hugeCount.bytes).outcome =
        .error ⟨.outOfRange, .ofText "stoull"⟩ ∧
      ¬Bounded (decodeCursor largePlatform hugeCount.bytes) ∧
      (decodeCursor largePlatform hugeLength.bytes).outcome =
        .ok ⟨[.string (.ofAscii "x"), .string (.ofAscii "x")], []⟩ ∧
      (decodeCursor largePlatform hugeLength.bytes).records.map (fun r => (r.start, r.next)) =
        [(5, 5), (5, 5)] ∧
      ¬Bounded (decodeCursor largePlatform hugeLength.bytes) := by
  have hcount : (decodeCursor largePlatform hugeCount.bytes).outcome =
      .error ⟨.outOfRange, .ofText "stoull"⟩ := by
    rfl
  have hpositions : (decodeCursor largePlatform hugeLength.bytes).records.map
      (fun r => (r.start, r.next)) = [(5, 5), (5, 5)] := by
    decide +kernel
  refine ⟨hcount, ?_, by rfl, hpositions, ?_⟩
  · intro hbounded
    cases hbounded.throws _ hcount
  · intro hbounded
    obtain ⟨start, hadvances⟩ := hbounded.advances
    cases hrecords : (decodeCursor largePlatform hugeLength.bytes).records with
    | nil =>
      rw [hrecords] at hpositions
      cases hpositions
    | cons record records =>
      rw [hrecords] at hpositions hadvances
      obtain ⟨hstart, hlt, -⟩ := hadvances
      injection hpositions with hposition
      injection hposition
      omega

/-- No call reads outside of the payload, whatever it announces. -/
theorem decode_inside (cursor : ByteString) {e : Thrown}
    (h : (decodeCursor platform cursor.bytes).outcome = .error e) : e.type ≠ .undefined := by
  cases hplain : base64urlDecode cursor.bytes with
  | error error =>
    rw [decodeCursor, hplain] at h
    cases h
    nofun
  | ok plain =>
    obtain ⟨signature, line, rest, hheader⟩ | ⟨error, hrejected, htype⟩ := header_or_rejected plain
    · have hread := readHeader_of_hasHeader hheader
      cases hstoull : stoull line with
      | error error =>
        rw [hstoull] at hread
        rw [decodeCursor_of_rejected platform hplain hread] at h
        cases h
        obtain htype | ⟨htype, -⟩ := thrown_type "stoull" error <;> rw [htype] <;> nofun
      | ok count =>
        rw [hstoull] at hread
        rw [decodeCursor_of_header platform hplain hread] at h
        cases hreserve : reserve platform count with
        | error error =>
          rw [hreserve] at h
          cases h
          obtain htype | htype := reserve_error platform hreserve <;> rw [htype] <;> nofun
        | ok =>
          rw [hreserve] at h
          change Except.map _ (readRecords _ _ _ _).2 = _ at h
          cases houtcome : (readRecords platform plain count
              (signature.length + line.length + 4)).2 with
          | error error =>
            rw [houtcome] at h
            cases h
            obtain htype | htype :=
              readRecords_error platform (payload_lt hplain) count houtcome <;>
              rw [htype] <;> nofun
          | ok =>
            rw [houtcome] at h
            cases h
    · rw [decodeCursor_of_rejected platform hplain hrejected] at h
      cases h
      rw [htype]
      nofun

/-! ## The texts of the exceptions -/

/-- The conversions of numbers, less the classes of their exceptions. -/
def Platform.doubles (print : UInt64 → List UInt8) : DoubleText where
  print := print
  read text := ((platform.stod text).mapError (·.thrown "stod")).mapError (·.exn)

theorem mapError_bind {α β : Type} (x : Except Thrown α) (f : α → Except Thrown β) :
    (x >>= f).mapError (·.exn) = x.mapError (·.exn) >>= fun a => (f a).mapError (·.exn) := by
  cases x <;> rfl

theorem mapError_map {α β : Type} (x : Except Thrown α) (f : α → β) :
    (x.map f).mapError (·.exn) = (x.mapError (·.exn)).map f := by
  cases x <;> rfl

theorem stoull_exn (text : List UInt8) :
    ((stoull text).mapError (·.thrown "stoull")).mapError (·.exn) = Cursor.stoull text := by
  unfold stoull Cursor.stoull
  cases readNumber text with
  | none => rfl
  | some number =>
    dsimp only
    split <;> rfl

theorem stoll_exn (text : List UInt8) :
    ((stoll text).mapError (·.thrown "stoll")).mapError (·.exn) = Cursor.stoll text := by
  unfold stoll Cursor.stoll
  cases readNumber text with
  | none => rfl
  | some number =>
    dsimp only
    generalize (if number.1 = true then -(number.2 : Int) else (number.2 : Int)) = value
    split <;> rfl

theorem stringOf_exn (text : List UInt8) :
    (stringOf text).mapError (·.exn) = Cursor.stringOf text := by
  unfold stringOf Cursor.stringOf
  split <;> rfl

theorem parseCursorValue_exn (print : UInt64 → List UInt8) (tag : UInt8) (text : List UInt8) :
    (parseCursorValue platform tag text).mapError (·.exn) =
      Cursor.parseCursorValue (platform.doubles print) tag text := by
  unfold parseCursorValue Cursor.parseCursorValue
  split
  · rw [mapError_map, stoll_exn]
  · split
    · rw [mapError_map]
      rfl
    · split
      · rw [mapError_map, stringOf_exn]
      · split
        · split
          · rfl
          · split <;> rfl
        · split
          · rw [mapError_map, stringOf_exn]
          · rfl

theorem readLine_exn (plain : List UInt8) (pos : Nat) :
    (readLine plain pos).mapError (·.exn) = Cursor.readLine plain pos := by
  obtain ⟨line, rest, hline, hbreak⟩ | hfind := find_cases plain 10 pos
  · rw [readLine_of_drop hline hbreak, Cursor.readLine_of_drop hline hbreak]
    rfl
  · rw [readLine, Cursor.readLine, hfind]
    rfl

/-- A round of the loop of `Cursor.decodeCursor`. -/
theorem decodeValues_of_opens (doubles : DoubleText) {tag : UInt8} {field rest : List UInt8}
    (h : Opens plain pos tag field rest) (count : Nat) :
    decodeValues doubles plain (count + 1) pos = (do
      let length ← Cursor.stoull field
      if (pos + field.length + 2 + length) % 2 ^ 64 > plain.length then
        .error Cursor.invalidPayload
      else
        let value ← Cursor.parseCursorValue doubles tag (rest.take length)
        if plain[(pos + field.length + 2 + length) % 2 ^ 64]? = some 10 then
          let values ← decodeValues doubles plain count
            ((pos + field.length + 2 + length) % 2 ^ 64 + 1)
          return value :: values
        else .error Cursor.invalidPayload) := by
  have htag : plain.drop pos = [tag] ++ (field ++ 58 :: rest) := h.text
  have hfield : plain.drop (pos + 1) = field ++ 58 :: rest := drop_add_of_drop htag
  have hrest : plain.drop (pos + 1 + field.length + 1) = rest :=
    drop_succ_of_drop (drop_add_of_drop hfield)
  have hfirst : plain[pos]? = some tag := by
    have hhead := congrArg List.head? h.text
    rwa [List.head?_drop] at hhead
  have hsize : pos + 1 + field.length - (pos + 1) = field.length := by omega
  have hbody : pos + 1 + field.length + 1 = pos + field.length + 2 := by omega
  have hdigits : substr plain (pos + 1) field.length = field := by
    rw [substr, hfield, List.take_left]
  have htext : ∀ length, substr plain (pos + field.length + 2) length = rest.take length := by
    intro length
    rw [substr, ← hbody, hrest]
  rw [decodeValues, hfirst]
  dsimp only
  rw [findByte_of_drop hfield h.field_colon]
  dsimp only
  rw [hsize, hdigits, hbody]
  simp only [htext]

/-- The loop, with the texts of the exceptions. -/
theorem decodeValues_eq (print : UInt64 → List UInt8) (count : Nat) :
    ∀ pos, decodeValues (platform.doubles print) plain count pos =
      ((readRecords platform plain count pos).2.map fun _ =>
        (readRecords platform plain count pos).1.map (·.value)).mapError (·.exn) := by
  induction count with
  | zero =>
    intro pos
    rfl
  | succ count ih =>
    intro pos
    have hround : ((readRecords platform plain (count + 1) pos).2.map fun _ =>
        (readRecords platform plain (count + 1) pos).1.map (·.value)).mapError (·.exn) =
        (readRecord platform plain pos).mapError (·.exn) >>= fun record =>
          (decodeValues (platform.doubles print) plain count record.next).map
            (record.value :: ·) := by
      rw [readRecords]
      cases readRecord platform plain pos with
      | error e => rfl
      | ok record =>
        rw [Except.mapError, ok_bind, ih]
        cases (readRecords platform plain count record.next).2 <;> rfl
    rw [hround]
    obtain ⟨tag, field, rest, hopens⟩ | hpos | ⟨hpos, hfind⟩ := opens_cases plain pos
    · rw [decodeValues_of_opens _ hopens, readRecord_of_opens platform hopens, ← stoull_exn]
      cases hstoull : stoull field with
      | error e =>
        rw [finishRecord, hstoull]
        rfl
      | ok length =>
        show (if (pos + field.length + 2 + length) % 2 ^ 64 > plain.length then _ else _) = _
        by_cases hstop : (pos + field.length + 2 + length) % 2 ^ 64 ≤ plain.length
        · rw [if_neg (by omega), finishRecord_of_stoull platform hstoull hstop, ← parseCursorValue_exn]
          cases parseCursorValue platform tag (rest.take length) with
          | error e => rfl
          | ok value =>
            show (if plain[(pos + field.length + 2 + length) % 2 ^ 64]? = some 10 then _ else _) = _
            simp only [bind, Except.bind, pure, Except.pure]
            split
            · dsimp only [Except.mapError]
              cases decodeValues (platform.doubles print) plain count
                ((pos + field.length + 2 + length) % 2 ^ 64 + 1) <;> rfl
            · rfl
        · rw [if_pos (by omega), finishRecord_of_stop platform hstoull (by omega)]
          rfl
    · rw [decodeValues, List.getElem?_eq_none hpos, readRecord_of_length_le platform hpos]
      rfl
    · rw [decodeValues, List.getElem?_eq_getElem hpos, readRecord_of_find_none platform hpos hfind]
      dsimp only
      rw [hfind]
      rfl

/-- `Cursor.decodeCursor` behind the header. -/
theorem decodeCursor_of_payload (doubles : DoubleText) {cursor : List UInt8}
    (hplain : base64urlDecode cursor = .ok plain) :
    Cursor.decodeCursor doubles cursor = ((readHeader plain).mapError (·.exn) >>= fun header => do
      let values ← decodeValues doubles plain header.2.1 header.2.2
      return { values, signature := header.1 }) := by
  rw [Cursor.decodeCursor, hplain]
  show (Cursor.readLine plain 0 >>= _) = _
  rw [readHeader, mapError_bind, readLine_exn]
  cases Cursor.readLine plain 0 with
  | error e => rfl
  | ok version =>
    show (if version.1 = [50] then _ else _) =
      ((if version.1 = [50] then _ else _ : Except Thrown _).mapError (·.exn) >>= _)
    split
    · rw [mapError_bind, readLine_exn]
      cases Cursor.readLine plain version.2 with
      | error e => rfl
      | ok signature =>
        show (Cursor.readLine plain signature.2 >>= _) = ((readLine plain _ >>= _).mapError _ >>= _)
        rw [mapError_bind, readLine_exn]
        cases Cursor.readLine plain signature.2 with
        | error e => rfl
        | ok line =>
          show (Cursor.stoull line.1 >>= _) = (((stoull _).mapError _ >>= _).mapError _ >>= _)
          rw [mapError_bind, stoull_exn]
          cases Cursor.stoull line.1 <;> rfl
    · rfl

/-- What `decode_cursor` returns, and the texts of its exceptions, once the memory is there. -/
theorem decodeCursor_eq (print : UInt64 → List UInt8) (cursor : List UInt8)
    (h : reserve platform (decodeCursor platform cursor).count = .ok ()) :
    (decodeCursor platform cursor).outcome.mapError (·.exn) =
      Cursor.decodeCursor (platform.doubles print) cursor := by
  cases hplain : base64urlDecode cursor with
  | error e =>
    rw [decodeCursor, Cursor.decodeCursor, hplain]
    rfl
  | ok plain =>
    rw [decodeCursor_of_payload _ hplain]
    cases hread : readHeader plain with
    | error e =>
      rw [decodeCursor_of_rejected platform hplain hread]
      rfl
    | ok header =>
      have hcall := decodeCursor_of_header platform hplain hread
      have hcount : (decodeCursor platform cursor).count = header.2.1 := by
        rw [hcall]
        cases reserve platform header.2.1 <;> rfl
      rw [hcount] at h
      rw [hcall, h]
      show (Except.map _ (readRecords platform plain _ _).2).mapError _ =
        (decodeValues (platform.doubles print) plain header.2.1 header.2.2 >>= _)
      rw [decodeValues_eq]
      cases (readRecords platform plain header.2.1 header.2.2).2 <;> rfl

end MetalOrm.Native.Cursor.Reads
