import MetalOrm.Native.Cursor
import Mathlib.Data.List.TakeWhile

/-!
# What is encoded as a cursor is decoded

Two codecs are stacked. The decoder of `base64url` is at most one byte behind the encoder: the bits
that it holds are the high ones of that byte, and those that the encoder holds are the low ones. The
text of the values is read field by field, each with its length before it.

## Key results

- `base64url_round_trip`: `base64url_decode` after `base64url_encode`
- `parseCursorValue_encode`: one value
- `cursor_round_trip`: `decode_cursor` after `encode_cursor`
-/

namespace MetalOrm.Native.Cursor

open ForStd (decimal decimalValue isDigit decimalValue_decimal isDigit_of_mem_decimal decimal_ne_nil)

/-! ## Six bits -/

/-- Every group of six bits has its character. -/
theorem base64urlValue_sextetChar (buffer : UInt32) :
    base64urlValue (sextetChar buffer) = some (buffer.toNat % 64) := by
  have hall : (List.range 64).all (fun n =>
      base64urlValue (base64urlAlphabet.getD n 0) = some n) = true := by decide +kernel
  have hand : (buffer &&& 0x3f).toNat = buffer.toNat % 64 := by
    rw [UInt32.toNat_and]
    exact Nat.and_two_pow_sub_one_eq_mod buffer.toNat 6
  unfold sextetChar
  rw [hand]
  have hmem : buffer.toNat % 64 ∈ List.range 64 := List.mem_range.mpr (by omega)
  simpa using List.all_eq_true.mp hall _ hmem

/-- One more byte in a buffer. -/
theorem toNat_pushByte (buffer : UInt32) (c : UInt8) :
    ((buffer <<< 8) ||| c.toUInt32).toNat = buffer.toNat % 2 ^ 24 * 256 + c.toNat := by
  have hc : c.toNat < 2 ^ 8 := c.toNat_lt
  have hshift : (buffer <<< 8).toNat = 2 ^ 8 * (buffer.toNat % 2 ^ 24) := by
    rw [UInt32.toNat_shiftLeft]
    show buffer.toNat <<< 8 % 2 ^ 32 = _
    rw [Nat.shiftLeft_eq]
    omega
  rw [UInt32.toNat_or, hshift, UInt8.toNat_toUInt32, ← Nat.two_pow_add_eq_or_of_lt hc]
  omega

/-- Six more bits in a buffer. -/
theorem toNat_pushSextet (buffer : UInt32) {value : Nat} (hvalue : value < 64) :
    ((buffer <<< 6) ||| UInt32.ofNat value).toNat = buffer.toNat % 2 ^ 26 * 64 + value := by
  have hvalue' : value < 2 ^ 6 := hvalue
  have hshift : (buffer <<< 6).toNat = 2 ^ 6 * (buffer.toNat % 2 ^ 26) := by
    rw [UInt32.toNat_shiftLeft]
    show buffer.toNat <<< 6 % 2 ^ 32 = _
    rw [Nat.shiftLeft_eq]
    omega
  have hofNat : (UInt32.ofNat value).toNat = value := by
    rw [UInt32.toNat_ofNat']
    omega
  rw [UInt32.toNat_or, hshift, hofNat, ← Nat.two_pow_add_eq_or_of_lt hvalue']
  omega

theorem toNat_shiftRight {bits : Nat} (hbits : bits < 32) (buffer : UInt32) :
    (buffer >>> UInt32.ofNat bits).toNat = buffer.toNat / 2 ^ bits := by
  have hofNat : (UInt32.ofNat bits).toNat % 32 = bits := by
    rw [UInt32.toNat_ofNat']
    omega
  rw [UInt32.toNat_shiftRight, hofNat, Nat.shiftRight_eq_div_pow]

/-- The lowest byte of a buffer. -/
theorem lowByte_eq {buffer : UInt32} {c : UInt8} (h : buffer.toNat % 256 = c.toNat) :
    (buffer &&& 0xff).toUInt8 = c := by
  apply UInt8.toNat_inj.mp
  rw [UInt32.toNat_toUInt8, UInt32.toNat_and]
  have hand : buffer.toNat &&& (0xff : UInt32).toNat = buffer.toNat % 2 ^ 8 :=
    Nat.and_two_pow_sub_one_eq_mod buffer.toNat 8
  rw [hand]
  omega

/-- A character is read into the buffer. -/
theorem decodeFrom_sextet (buffer word : UInt32) (bits : Nat) (input : List UInt8) :
    ∃ buffer' : UInt32, buffer'.toNat = buffer.toNat % 2 ^ 26 * 64 + word.toNat % 64 ∧
      decodeFrom buffer bits (sextetChar word :: input) =
        if bits + 6 ≥ 8 then do
          let rest ← decodeFrom buffer' (bits + 6 - 8) input
          return ((buffer' >>> UInt32.ofNat (bits + 6 - 8)) &&& 0xff).toUInt8 :: rest
        else decodeFrom buffer' (bits + 6) input := by
  refine ⟨(buffer <<< 6) ||| UInt32.ofNat (word.toNat % 64),
    toNat_pushSextet buffer (Nat.mod_lt _ (by decide)), ?_⟩
  rw [decodeFrom, base64urlValue_sextetChar]

/-! ## `base64url` -/

/-- The bits of a byte that the encoder and the decoder hold, and the byte itself. -/
inductive Held (encoder : UInt32) (decoder : UInt32) : Nat → Nat → List UInt8 → Prop where
  | none : Held encoder decoder 0 0 []
  | two (last : UInt8) (hlow : encoder.toNat % 4 = last.toNat % 4)
    (hhigh : decoder.toNat % 64 = last.toNat / 4) : Held encoder decoder 2 6 [last]
  | four (last : UInt8) (hlow : encoder.toNat % 16 = last.toNat % 16)
    (hhigh : decoder.toNat % 16 = last.toNat / 16) : Held encoder decoder 4 4 [last]

/-- What is left of the input is decoded after the byte that is held. -/
theorem decodeFrom_encodeFrom (input : List UInt8) :
    ∀ {encoder decoder : UInt32} {bits held : Nat} {pending : List UInt8},
      Held encoder decoder bits held pending →
      decodeFrom decoder held (encodeFrom encoder bits input) = .ok (pending ++ input) := by
  induction input with
  | nil =>
    intro encoder decoder bits held pending h
    cases h with
    | none => rfl
    | two last hlow hhigh =>
      -- the last character has the two low bits of the byte
      obtain ⟨buffer, hbuffer, hdecode⟩ := decodeFrom_sextet decoder (encoder <<< UInt32.ofNat 4) 6 []
      have hshift : (encoder <<< UInt32.ofNat 4).toNat % 64 = encoder.toNat % 4 * 16 := by
        rw [UInt32.toNat_shiftLeft]
        show encoder.toNat <<< 4 % 2 ^ 32 % 64 = _
        rw [Nat.shiftLeft_eq]
        omega
      have hbyte : (buffer >>> UInt32.ofNat 4).toNat % 256 = last.toNat := by
        have := last.toNat_lt
        rw [toNat_shiftRight (by decide), hbuffer, hshift]
        omega
      show decodeFrom decoder 6 [sextetChar (encoder <<< UInt32.ofNat 4)] = _
      rw [hdecode, if_pos (by decide)]
      show Except.ok [_] = _
      rw [lowByte_eq hbyte]
      rfl
    | four last hlow hhigh =>
      obtain ⟨buffer, hbuffer, hdecode⟩ := decodeFrom_sextet decoder (encoder <<< UInt32.ofNat 2) 4 []
      have hshift : (encoder <<< UInt32.ofNat 2).toNat % 64 = encoder.toNat % 16 * 4 := by
        rw [UInt32.toNat_shiftLeft]
        show encoder.toNat <<< 2 % 2 ^ 32 % 64 = _
        rw [Nat.shiftLeft_eq]
        omega
      have hbyte : (buffer >>> UInt32.ofNat 2).toNat % 256 = last.toNat := by
        have := last.toNat_lt
        rw [toNat_shiftRight (by decide), hbuffer, hshift]
        omega
      show decodeFrom decoder 4 [sextetChar (encoder <<< UInt32.ofNat 2)] = _
      rw [hdecode, if_pos (by decide)]
      show Except.ok [_] = _
      rw [lowByte_eq hbyte]
      rfl
  | cons c input ih =>
    intro encoder decoder bits held pending h
    have hc := c.toNat_lt
    have hpush := toNat_pushByte encoder c
    rw [encodeFrom]
    generalize (encoder <<< 8 ||| c.toUInt32) = pushed at hpush ⊢
    cases h with
    | none =>
      -- one character, and two bits of `c` are left
      have hdrain : drain pushed (0 + 8) = ([sextetChar (pushed >>> UInt32.ofNat 2)], 2) := by
        rw [drain, if_pos (by decide), drain, if_neg (by decide)]
      rw [hdrain]
      obtain ⟨buffer, hbuffer, hdecode⟩ := decodeFrom_sextet decoder (pushed >>> UInt32.ofNat 2) 0
        (encodeFrom pushed 2 input)
      rw [toNat_shiftRight (by decide)] at hbuffer
      show decodeFrom decoder 0 (sextetChar _ :: encodeFrom pushed 2 input) = _
      rw [hdecode, if_neg (by decide), ih (.two c (by omega) (by omega))]
      rfl
    | two last hlow hhigh =>
      -- one character, which completes the byte before, and four bits of `c` are left
      have hdrain : drain pushed (2 + 8) = ([sextetChar (pushed >>> UInt32.ofNat 4)], 4) := by
        rw [drain, if_pos (by decide), drain, if_neg (by decide)]
      rw [hdrain]
      obtain ⟨buffer, hbuffer, hdecode⟩ := decodeFrom_sextet decoder (pushed >>> UInt32.ofNat 4) 6
        (encodeFrom pushed 4 input)
      rw [toNat_shiftRight (by decide)] at hbuffer
      have hlast := last.toNat_lt
      have hbyte : (buffer >>> UInt32.ofNat 4).toNat % 256 = last.toNat := by
        rw [toNat_shiftRight (by decide), hbuffer]
        omega
      show decodeFrom decoder 6 (sextetChar _ :: encodeFrom pushed 4 input) = _
      rw [hdecode, if_pos (by decide), ih (.four c (by omega) (by omega)), lowByte_eq hbyte]
      rfl
    | four last hlow hhigh =>
      -- two characters: one completes the byte before, the other has the six low bits of `c`
      have hdrain : drain pushed (4 + 8) =
          ([sextetChar (pushed >>> UInt32.ofNat 6), sextetChar (pushed >>> UInt32.ofNat 0)], 0) := by
        rw [drain, if_pos (by decide), drain, if_pos (by decide), drain, if_neg (by decide)]
      rw [hdrain]
      obtain ⟨buffer, hbuffer, hdecode⟩ := decodeFrom_sextet decoder (pushed >>> UInt32.ofNat 6) 4
        (sextetChar (pushed >>> UInt32.ofNat 0) :: encodeFrom pushed 0 input)
      obtain ⟨buffer', hbuffer', hdecode'⟩ := decodeFrom_sextet buffer (pushed >>> UInt32.ofNat 0) 2
        (encodeFrom pushed 0 input)
      rw [toNat_shiftRight (by decide)] at hbuffer hbuffer'
      have hlast := last.toNat_lt
      have hbyte : (buffer >>> UInt32.ofNat 2).toNat % 256 = last.toNat := by
        rw [toNat_shiftRight (by decide), hbuffer]
        omega
      have hbyte' : (buffer' >>> UInt32.ofNat 0).toNat % 256 = c.toNat := by
        rw [toNat_shiftRight (by decide), hbuffer']
        omega
      show decodeFrom decoder 4 (sextetChar _ :: sextetChar _ :: encodeFrom pushed 0 input) = _
      rw [hdecode, if_pos (by decide), hdecode', if_pos (by decide), ih .none, lowByte_eq hbyte]
      show Except.ok (last :: ((buffer' >>> UInt32.ofNat 0) &&& 255).toUInt8 :: input) = _
      rw [lowByte_eq hbyte']
      rfl

/-- `base64url_decode` gives back what `base64url_encode` was given. -/
theorem base64url_round_trip (input : List UInt8) :
    base64urlDecode (base64urlEncode input) = .ok input :=
  decodeFrom_encodeFrom input .none

/-- A character gives one byte at most. -/
theorem length_le_of_decodeFrom (input : List UInt8) :
    ∀ {buffer : UInt32} {bits : Nat} {out : List UInt8},
      decodeFrom buffer bits input = .ok out → out.length ≤ input.length := by
  induction input with
  | nil =>
    intro buffer bits out h
    obtain rfl := Except.ok.inj h
    exact Nat.le_refl 0
  | cons c input ih =>
    intro buffer bits out h
    rw [decodeFrom] at h
    split at h
    · exact nomatch h
    · dsimp only at h
      split at h
      · obtain ⟨rest, hrest, h⟩ := except_bind_ok h
        obtain rfl := Except.ok.inj h
        have := ih hrest
        simp only [List.length_cons]
        omega
      · have := ih h
        simp only [List.length_cons]
        omega

theorem length_le_base64urlEncode (input : List UInt8) :
    input.length ≤ (base64urlEncode input).length :=
  length_le_of_decodeFrom _ (base64url_round_trip input)

/-! ## Numbers -/

/-- A digit is no blank, no sign and no colon. -/
theorem isDigit_facts {b : UInt8} (h : isDigit b = true) :
    isSpaceByte b = false ∧ b ≠ 45 ∧ b ≠ 43 ∧ b ≠ 58 ∧ b ≠ 10 := by
  have hrange : 48 ≤ b.toNat ∧ b.toNat ≤ 57 := by
    simpa [isDigit, UInt8.le_iff_toNat_le] using h
  have hne : ∀ c : UInt8, c.toNat < 48 ∨ 57 < c.toNat → b ≠ c := by
    rintro c hc rfl
    omega
  refine ⟨?_, hne 45 (by decide), hne 43 (by decide), hne 58 (by decide), hne 10 (by decide)⟩
  have hspace : b ≠ 32 := hne 32 (by decide)
  have hhigh : ¬b ≤ 13 := by
    rw [UInt8.le_iff_toNat_le]
    show ¬b.toNat ≤ 13
    omega
  simp [isSpaceByte, hspace, hhigh]

theorem takeWhile_decimal (n : Nat) : (decimal n).takeWhile isDigit = decimal n :=
  List.takeWhile_eq_self_iff.mpr fun _ hb => isDigit_of_mem_decimal hb

/-- A number without a sign. -/
theorem readNumber_decimal (n : Nat) : readNumber (decimal n) = some (false, n) := by
  have hne := decimal_ne_nil n
  have hsign : readSign ((decimal n).dropWhile isSpaceByte) = (false, decimal n) := by
    obtain ⟨first, digits, hdigits⟩ := List.exists_cons_of_ne_nil hne
    have hfirst : first ∈ decimal n := by
      rw [hdigits]
      exact List.mem_cons_self
    obtain ⟨hspace, hminus, hplus, _⟩ := isDigit_facts (isDigit_of_mem_decimal hfirst)
    rw [hdigits, List.dropWhile_cons_of_neg (by simp [hspace]), readSign, if_neg hminus,
      if_neg hplus]
  unfold readNumber
  rw [hsign]
  dsimp only
  rw [takeWhile_decimal, decimalValue_decimal, if_neg (by simp [hne])]

/-- A number after a minus. -/
theorem readNumber_minus (n : Nat) : readNumber (45 :: decimal n) = some (true, n) := by
  have hne := decimal_ne_nil n
  have hsign : readSign ((45 :: decimal n).dropWhile isSpaceByte) = (true, decimal n) := by
    rw [List.dropWhile_cons_of_neg (by decide), readSign, if_pos rfl]
  unfold readNumber
  rw [hsign]
  dsimp only
  rw [takeWhile_decimal, decimalValue_decimal, if_neg (by simp [hne])]

theorem stoull_decimal {n : Nat} (h : n < 2 ^ 64) : stoull (decimal n) = .ok n := by
  unfold stoull
  rw [readNumber_decimal]
  dsimp only
  rw [if_pos h]
  rfl

theorem stoll_intText (v : Int64) : stoll (intText v) = .ok v := by
  have hmin := v.le_toInt
  have hmax := v.toInt_lt
  unfold stoll intText
  by_cases hneg : v.toInt < 0
  · have hvalue : -(v.toInt.natAbs : Int) = v.toInt := by omega
    rw [if_pos hneg, readNumber_minus]
    dsimp only
    rw [if_pos rfl, hvalue, if_pos (by simp; omega), Int64.ofInt_toInt]
  · have hvalue : (v.toInt.natAbs : Int) = v.toInt := by omega
    rw [if_neg hneg, readNumber_decimal]
    dsimp only
    rw [if_neg Bool.false_ne_true, hvalue, if_pos (by simp; omega), Int64.ofInt_toInt]

/-! ## One value -/

variable (doubles : DoubleText)

/-- The values of the round trip: all but `NULL` and numbers with a point. -/
def Exact : Value → Prop
  | .null | .double _ => False
  | _ => True

/-- The tag and the text of a value give the value back. -/
theorem parseCursorValue_encode {value : Value} (h : Exact value) :
    ∃ tag text, cursorValueText doubles value = .ok (tag, text) ∧
      parseCursorValue doubles tag text = .ok value := by
  have hstring : ∀ s : ByteString, stringOf s.bytes = .ok s := by
    intro s
    unfold stringOf
    rw [dif_pos s.size_lt]
  cases value with
  | null => exact h.elim
  | double bits => exact h.elim
  | int64 v =>
    refine ⟨105, intText v, rfl, ?_⟩
    show (stoll (intText v)).map Value.int64 = _
    rw [stoll_intText]
    rfl
  | string s =>
    refine ⟨115, s.bytes, rfl, ?_⟩
    show (stringOf s.bytes).map Value.string = _
    rw [hstring]
    rfl
  | bool b => cases b <;> exact ⟨_, _, rfl, rfl⟩
  | blob b =>
    refine ⟨120, b.bytes, rfl, ?_⟩
    show (stringOf b.bytes).map Value.blob = _
    rw [hstring]
    rfl

/-! ## Positions in a text -/

/-- What stands `k` bytes after a position. -/
theorem drop_add_of_drop {plain text rest : List UInt8} {pos : Nat}
    (h : plain.drop pos = text ++ rest) : plain.drop (pos + text.length) = rest := by
  rw [← List.drop_drop, h, List.drop_left]

/-- What stands after the next byte. -/
theorem drop_succ_of_drop {plain rest : List UInt8} {b : UInt8} {pos : Nat}
    (h : plain.drop pos = b :: rest) : plain.drop (pos + 1) = rest := by
  rw [← List.drop_drop, h]
  rfl

/-- The first byte of a kind after a text in which there is none. -/
theorem findByte_of_drop {plain text rest : List UInt8} {b : UInt8} {pos : Nat}
    (h : plain.drop pos = text ++ b :: rest) (hb : b ∉ text) :
    findByte plain b pos = some (pos + text.length) := by
  have hnone : text.findIdx? (· = b) = none := by
    rw [List.findIdx?_eq_none_iff]
    intro x hx
    simp only [decide_eq_false_iff_not]
    rintro rfl
    exact hb hx
  unfold findByte
  rw [h, List.findIdx?_append, hnone, List.findIdx?_cons]
  simp

/-- A line, and the position after it. -/
theorem readLine_of_drop {plain line rest : List UInt8} {pos : Nat}
    (h : plain.drop pos = line ++ 10 :: rest) (hline : 10 ∉ line) :
    readLine plain pos = .ok (line, pos + line.length + 1) := by
  have hlength : pos + line.length - pos = line.length := by omega
  unfold readLine substr
  rw [findByte_of_drop h hline]
  dsimp only
  rw [hlength, h, List.take_left]

/-- The end of a line. -/
theorem drop_line {plain line rest : List UInt8} {pos : Nat}
    (h : plain.drop pos = line ++ 10 :: rest) : plain.drop (pos + line.length + 1) = rest :=
  drop_succ_of_drop (drop_add_of_drop h)

/-! ## The fields of a cursor -/

/-- One field and those after it. -/
theorem decodeValues_field {plain text rest : List UInt8} {tag : UInt8} {value : Value}
    (hplain : plain.length < 2 ^ 64) (hvalue : parseCursorValue doubles tag text = .ok value)
    {pos : Nat} (h : plain.drop pos = [tag] ++ decimal text.length ++ [58] ++ text ++ [10] ++ rest)
    (count : Nat) {values : List Value}
    (hrest : ∀ next, plain.drop next = rest → decodeValues doubles plain count next = .ok values) :
    decodeValues doubles plain (count + 1) pos = .ok (value :: values) := by
  have htag : plain.drop pos = [tag] ++ (decimal text.length ++ 58 :: (text ++ 10 :: rest)) := by
    rw [h]
    simp
  have hlength := drop_add_of_drop htag
  have hcolon := drop_add_of_drop hlength
  have htext : plain.drop (pos + 1 + (decimal text.length).length + 1) = text ++ 10 :: rest :=
    drop_succ_of_drop hcolon
  have hend := drop_add_of_drop htext
  -- the field ends inside of the text, so no sum wraps
  have hbound : pos + 1 + (decimal text.length).length + 1 + text.length < plain.length := by
    by_contra hle
    rw [List.drop_eq_nil_of_le (by omega)] at hend
    exact absurd hend (by simp)
  have hfirst : plain[pos]? = some tag := by
    have hhead := congrArg List.head? htag
    rwa [List.head?_drop] at hhead
  have hlast : plain[pos + 1 + (decimal text.length).length + 1 + text.length]? = some 10 := by
    have hhead := congrArg List.head? hend
    rwa [List.head?_drop] at hhead
  have hfind := findByte_of_drop hlength fun hmem =>
    (isDigit_facts (isDigit_of_mem_decimal hmem)).2.2.2.1 rfl
  have hsize : pos + 1 + (decimal text.length).length - (pos + 1) = (decimal text.length).length := by
    omega
  have hmod : (pos + 1 + (decimal text.length).length + 1 + text.length) % 2 ^ 64 =
      pos + 1 + (decimal text.length).length + 1 + text.length := Nat.mod_eq_of_lt (by omega)
  have hdigits : substr plain (pos + 1) (decimal text.length).length = decimal text.length := by
    unfold substr
    have hdrop : plain.drop (pos + 1) = decimal text.length ++ 58 :: (text ++ 10 :: rest) := hlength
    rw [hdrop, List.take_left]
  have hcontent : substr plain (pos + 1 + (decimal text.length).length + 1) text.length = text := by
    unfold substr
    rw [htext, List.take_left]
  have hnext := hrest (pos + 1 + (decimal text.length).length + 1 + text.length + 1)
    (drop_succ_of_drop hend)
  have hfind' : findByte plain 58 (pos + 1) = some (pos + 1 + (decimal text.length).length) := hfind
  rw [decodeValues, hfirst]
  dsimp only
  rw [hfind']
  dsimp only
  rw [hsize, hdigits, stoull_decimal (by omega)]
  show (if (pos + 1 + (decimal text.length).length + 1 + text.length) % 2 ^ 64 > plain.length then
    Except.error invalidPayload else _) = _
  rw [hmod, if_neg (by omega), hcontent, hvalue]
  show (if plain[pos + 1 + (decimal text.length).length + 1 + text.length]? = some 10 then _
    else _) = _
  rw [if_pos hlast, hnext]
  rfl

/-- All the fields. -/
theorem decodeValues_fields {plain : List UInt8} (hplain : plain.length < 2 ^ 64)
    (values : List Value) :
    ∀ {texts : List (List UInt8)}, values.mapM (encodeValue doubles) = .ok texts →
      (∀ value ∈ values, Exact value) → ∀ pos, plain.drop pos = texts.flatten →
      decodeValues doubles plain values.length pos = .ok values := by
  induction values with
  | nil =>
    intro texts _ _ pos _
    rfl
  | cons value values ih =>
    intro texts htexts hexact pos hpos
    obtain ⟨hvalue, hvalues⟩ := List.forall_mem_cons.mp hexact
    obtain ⟨tag, text, hencode, hparse⟩ := parseCursorValue_encode doubles hvalue
    rw [List.mapM_cons] at htexts
    obtain ⟨first, hfirst, htexts⟩ := except_bind_ok htexts
    obtain ⟨rest, hrest, htexts⟩ := except_bind_ok htexts
    obtain rfl := Except.ok.inj htexts
    have hfield : first = [tag] ++ decimal text.length ++ [58] ++ text ++ [10] := by
      unfold encodeValue at hfirst
      rw [hencode] at hfirst
      exact (Except.ok.inj hfirst).symm
    rw [List.flatten_cons, hfield] at hpos
    exact decodeValues_field doubles hplain hparse hpos values.length
      fun next hnext => ih hrest hvalues next hnext

/-- No field is empty. -/
theorem length_le_fields {values : List Value} :
    ∀ {texts : List (List UInt8)}, values.mapM (encodeValue doubles) = .ok texts →
      values.length ≤ texts.flatten.length := by
  induction values with
  | nil =>
    intro texts _
    exact Nat.zero_le _
  | cons value values ih =>
    intro texts htexts
    rw [List.mapM_cons] at htexts
    obtain ⟨first, hfirst, htexts⟩ := except_bind_ok htexts
    obtain ⟨rest, hrest, htexts⟩ := except_bind_ok htexts
    obtain rfl := Except.ok.inj htexts
    obtain ⟨field, _, hfield⟩ := except_bind_ok hfirst
    have hlength := congrArg List.length (Except.ok.inj hfield)
    have := ih hrest
    simp only [List.length_append, List.length_cons, List.length_nil, List.flatten_cons]
      at hlength ⊢
    omega

/-- Every value of the round trip is written. -/
theorem encodeValues_ok {values : List Value} (h : ∀ value ∈ values, Exact value) :
    ∃ texts, values.mapM (encodeValue doubles) = .ok texts := by
  induction values with
  | nil => exact ⟨[], rfl⟩
  | cons value values ih =>
    obtain ⟨hvalue, hvalues⟩ := List.forall_mem_cons.mp h
    obtain ⟨tag, text, hencode, _⟩ := parseCursorValue_encode doubles hvalue
    obtain ⟨rest, hrest⟩ := ih hvalues
    refine ⟨([tag] ++ decimal text.length ++ [58] ++ text ++ [10]) :: rest, ?_⟩
    rw [List.mapM_cons, hrest]
    unfold encodeValue
    rw [hencode]
    rfl

/-! ## The round trip -/

/-- A signature without line breaks. -/
theorem newline_not_mem_orderSignature {order : List CursorOrderTerm}
    (h : ∀ term ∈ order, 10 ∉ term.table.bytes ∧ 10 ∉ term.column.bytes) :
    10 ∉ orderSignature order := by
  have hterm : ∀ term ∈ order, 10 ∉ termSignature term := by
    intro term hmem
    obtain ⟨htable, hcolumn⟩ := h term hmem
    have hdirection : 10 ∉ ByteString.ascii (if term.ascending then ":ASC" else ":DESC") := by
      cases term.ascending <;> decide
    simp only [termSignature, List.mem_append, not_or]
    exact ⟨⟨⟨htable, by decide⟩, hcolumn⟩, hdirection⟩
  unfold orderSignature
  induction order with
  | nil => exact List.not_mem_nil
  | cons first order ih =>
    obtain ⟨_, h⟩ := List.forall_mem_cons.mp h
    obtain ⟨hfirst, hterm⟩ := List.forall_mem_cons.mp hterm
    cases order with
    | nil =>
      rw [List.map_cons, List.map_nil, List.intercalate_singleton]
      exact hfirst
    | cons second order =>
      rw [List.map_cons, List.map_cons, List.intercalate_cons_cons]
      simp only [List.mem_append, not_or]
      exact ⟨⟨hfirst, by decide⟩, ih h hterm⟩

theorem encodeCursor_ok {values : List Value} (h : ∀ value ∈ values, Exact value)
    (order : List CursorOrderTerm) : ∃ cursor, encodeCursor doubles values order = .ok cursor := by
  obtain ⟨texts, htexts⟩ := encodeValues_ok doubles h
  unfold encodeCursor
  rw [htexts]
  exact ⟨_, rfl⟩

/-- The cursor of an order without line breaks is decoded to what it was encoded from. -/
theorem decodeCursor_encode {values : List Value} {order : List CursorOrderTerm}
    (hvalues : ∀ value ∈ values, Exact value) (hsignature : 10 ∉ orderSignature order)
    {cursor : List UInt8} (hencode : encodeCursor doubles values order = .ok cursor)
    (hlength : cursor.length < 2 ^ 64) :
    decodeCursor doubles cursor = .ok ⟨values, orderSignature order⟩ := by
  obtain ⟨texts, htexts, hcursor⟩ := except_bind_ok hencode
  have hversion : ByteString.ascii "2\n" = [50, 10] := by decide
  have hcount : (10 : UInt8) ∉ decimal values.length := fun hmem =>
    (isDigit_facts (isDigit_of_mem_decimal hmem)).2.2.2.2 rfl
  -- the text is three lines and the fields
  generalize hplain : ByteString.ascii "2\n" ++ orderSignature order ++ [10] ++
    decimal values.length ++ [10] ++ texts.flatten = plain at hcursor
  obtain rfl : base64urlEncode plain = cursor := Except.ok.inj hcursor
  have hlength : plain.length < 2 ^ 64 := by
    have := length_le_base64urlEncode plain
    omega
  have hfirst : plain.drop 0 = [50] ++ 10 :: (orderSignature order ++
      10 :: (decimal values.length ++ 10 :: texts.flatten)) := by
    rw [← hplain, hversion]
    simp
  have hsecond := drop_line hfirst
  have hthird := drop_line hsecond
  have hfields := decodeValues_fields doubles hlength values htexts hvalues _ (drop_line hthird)
  have hvalues' : values.length < 2 ^ 64 := by
    have hcount := length_le_fields doubles htexts
    have htotal := congrArg List.length hplain
    simp only [List.length_append] at htotal
    omega
  unfold decodeCursor
  rw [base64url_round_trip]
  show (readLine plain 0 >>= _) = _
  rw [readLine_of_drop hfirst (by decide)]
  show (if ([50] : List UInt8) = [50] then readLine plain _ >>= _
    else Except.error (.ofText "MetalORM: invalid cursor payload version")) = _
  rw [if_pos rfl, readLine_of_drop hsecond hsignature]
  show (readLine plain _ >>= _) = _
  rw [readLine_of_drop hthird hcount]
  show (stoull (decimal values.length) >>= _) = _
  rw [stoull_decimal hvalues']
  show (decodeValues doubles plain values.length _ >>= _) = _
  rw [hfields]
  rfl

/-- A cursor that is encoded from integers, texts, truth values and bytes is decoded to them and to
    the signature of the order, as long as it is a `std::string`; and `base64url_decode` gives back
    what `base64url_encode` was given. -/
theorem cursor_round_trip (doubles : DoubleText) (values : List Value)
    (order : List CursorOrderTerm) (hvalues : ∀ value ∈ values, Exact value)
    (horder : ∀ term ∈ order, 10 ∉ term.table.bytes ∧ 10 ∉ term.column.bytes) :
    (∃ cursor, encodeCursor doubles values order = .ok cursor ∧
      (cursor.length < 2 ^ 64 →
        decodeCursor doubles cursor = .ok ⟨values, orderSignature order⟩)) ∧
    ∀ input, base64urlDecode (base64urlEncode input) = .ok input := by
  refine ⟨?_, base64url_round_trip⟩
  obtain ⟨cursor, hencode⟩ := encodeCursor_ok doubles hvalues order
  have hsignature := newline_not_mem_orderSignature horder
  exact ⟨cursor, hencode, decodeCursor_encode doubles hvalues hsignature hencode⟩

theorem cursor_round_trip_newline :
    ∃ cursor, encodeCursor ⟨fun _ => [], fun _ => .error invalidPayload⟩
        [.string (.ofAscii "a:\n"), .int64 (-5), .bool true]
        [⟨.ofAscii "t", .ofAscii "c", true⟩] = .ok cursor ∧
      (cursor.length < 2 ^ 64 →
        decodeCursor ⟨fun _ => [], fun _ => .error invalidPayload⟩ cursor =
          .ok ⟨[.string (.ofAscii "a:\n"), .int64 (-5), .bool true],
            orderSignature [⟨.ofAscii "t", .ofAscii "c", true⟩]⟩) :=
  (cursor_round_trip _ _ _ (by simp [Exact])
    (by
      intro term hterm
      obtain rfl : term = ⟨.ofAscii "t", .ofAscii "c", true⟩ := by simpa using hterm
      decide +kernel)).1

end MetalOrm.Native.Cursor
