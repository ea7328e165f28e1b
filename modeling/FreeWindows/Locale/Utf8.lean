/-
**Conversion between UTF-8 and UTF-16.**

`utf8_mbstowcs` and `utf8_wcstombs` of `dlls/ntdll/locale_private.h`. A string is well formed if it is
made up of the encodings of Unicode characters, which are the numbers up to `0x10ffff` that are no
surrogates: `Char`, with `String.utf8EncodeChar` for the encoding in bytes.

* `decodeUtf8Char_iff`: a number is returned exactly for the encoding of a character;
* `mbstowcsLoop_chars`, `wcstombsLoop_chars`: the conversions of a string of characters;
* `mbstowcsLoop_success`: **what is accepted is well formed**;
* `utf8_roundTrip`: the two conversions are inverse to each other on the well formed strings.

A buffer is given by its length; what is returned is what was written to it, and the status.
-/

import FreeWindows.Lib.Numerals

namespace FreeWindows.Locale

open Lib List Option UInt8 Nat

inductive Status
  | success
  | someNotMapped
  | bufferTooSmall
deriving DecidableEq, Repr

/-! ### From UTF-8 -/

/-- `utf8_length`: how many bytes follow, for the first bytes from 0x80 on. -/
def utf8Length : List Nat :=
  List.replicate 66 0 ++ (List.replicate 30 1 ++ (List.replicate 16 2 ++ (List.replicate 5 3 ++
    List.replicate 11 0)))

def utf8Mask : List Nat := [0x7f, 0x1f, 0x0f, 0x07]

/-- The value `~0`. -/
def invalid : Nat := 0xffffffff

/-- The case of the switch for one byte that is left. -/
def decodeOne (res : Nat) : List UInt8 → Nat × List UInt8
  | [] => (invalid, [])
  | c :: str =>
    let ch := (c ^^^ 0x80).toNat
    if ch ≥ 0x40 then (invalid, c :: str)
    else
      let res := (res <<< 6) ||| ch
      if res < 0x80 then (invalid, str) else (res, str)

/-- The case for two bytes. -/
def decodeTwo (res : Nat) : List UInt8 → Nat × List UInt8
  | [] => (invalid, [])
  | c :: str =>
    let ch := (c ^^^ 0x80).toNat
    if ch ≥ 0x40 then (invalid, c :: str)
    else
      let res := (res <<< 6) ||| ch
      if res ≥ 0x110000 >>> 6 then (invalid, c :: str)
      else if res < 0x20 then (invalid, str)
      else if res ≥ 0xd800 >>> 6 ∧ res ≤ 0xdfff >>> 6 then (invalid, str)
      else decodeOne res str

/-- The case for three bytes. -/
def decodeThree (res : Nat) : List UInt8 → Nat × List UInt8
  | [] => (invalid, [])
  | c :: str =>
    let ch := (c ^^^ 0x80).toNat
    if ch ≥ 0x40 then (invalid, c :: str)
    else
      let res := (res <<< 6) ||| ch
      if res < 0x10 then (invalid, str) else decodeTwo res str

/-- `decode_utf8_char`, for a first byte from 0x80 on: the character, and what is left. -/
def decodeUtf8Char (ch : UInt8) (str : List UInt8) : Nat × List UInt8 :=
  let len := utf8Length.getD (ch.toNat - 0x80) 0
  let res := ch.toNat &&& utf8Mask.getD len 0
  if str.length < len then (invalid, [])
  else
    match len with
    | 3 => decodeThree res str
    | 2 => decodeTwo res str
    | 1 => decodeOne res str
    | _ => (invalid, str)

section Length

variable (res : Nat) (str : List UInt8)

theorem decodeOne_length : (decodeOne res str).2.length ≤ str.length := by
  unfold decodeOne
  split
  · exact le_rfl
  · dsimp only
    split_ifs <;> simp

theorem decodeTwo_length : (decodeTwo res str).2.length ≤ str.length := by
  unfold decodeTwo
  split
  · exact le_rfl
  · dsimp only
    split_ifs
    · exact le_rfl
    · exact le_rfl
    · exact le_succ _
    · exact le_succ _
    · exact le_succ_of_le (decodeOne_length _ _)

theorem decodeThree_length : (decodeThree res str).2.length ≤ str.length := by
  unfold decodeThree
  split
  · exact le_rfl
  · dsimp only
    split_ifs
    · exact le_rfl
    · exact le_succ _
    · exact le_succ_of_le (decodeTwo_length _ _)

end Length

theorem decodeUtf8Char_length (ch : UInt8) (str : List UInt8) :
    (decodeUtf8Char ch str).2.length ≤ str.length := by
  unfold decodeUtf8Char
  dsimp only
  split
  · exact zero_le _
  · split
    · exact decodeThree_length _ _
    · exact decodeTwo_length _ _
    · exact decodeOne_length _ _
    · exact le_rfl

/-- The units of the surrogate pair for a character from 0x10000 on. -/
def surrogates (res : Nat) : UInt16 × UInt16 :=
  let res := res - 0x10000
  (UInt16.ofNat (0xd800 ||| (res >>> 10)), UInt16.ofNat (0xdc00 ||| (res &&& 0x3ff)))

/-- The loop of `utf8_mbstowcs`, with `room` units left in the buffer. -/
def mbstowcsLoop (room : Nat) (src : List UInt8) (status : Status) : List UInt16 × Status :=
  match src with
  | [] => ([], status)
  | ch :: src =>
    if room = 0 then ([], .bufferTooSmall)
    else if ch < 0x80 then
      let tail := mbstowcsLoop (room - 1) src status
      (ch.toUInt16 :: tail.1, tail.2)
    else
      let decoded := decodeUtf8Char ch src
      if decoded.1 ≤ 0xffff then
        let tail := mbstowcsLoop (room - 1) decoded.2 status
        (UInt16.ofNat decoded.1 :: tail.1, tail.2)
      else if decoded.1 ≤ 0x10ffff then
        if room = 1 then ([(surrogates decoded.1).1], .bufferTooSmall)
        else
          let tail := mbstowcsLoop (room - 2) decoded.2 status
          ((surrogates decoded.1).1 :: (surrogates decoded.1).2 :: tail.1, tail.2)
      else
        let tail := mbstowcsLoop (room - 1) decoded.2 .someNotMapped
        (0xfffd :: tail.1, tail.2)
termination_by src.length
decreasing_by
  · exact lt_succ_self _
  all_goals exact lt_succ_of_le (decodeUtf8Char_length ch src)

/-- `utf8_mbstowcs`, into a buffer of `dstlen` units. -/
def utf8Mbstowcs (dstlen : Nat) (src : List UInt8) : List UInt16 × Status :=
  mbstowcsLoop dstlen src .success

/-! ### To UTF-8 -/

def isHighSurrogate (ch : UInt16) : Bool := 0xd800 ≤ ch ∧ ch ≤ 0xdbff

def isLowSurrogate (ch : UInt16) : Bool := 0xdc00 ≤ ch ∧ ch ≤ 0xdfff

/-- `get_utf16`: the character, and how many units it takes. -/
def getUtf16 (src : List UInt16) : Option (Nat × Nat) :=
  match src with
  | [] => none
  | first :: rest =>
    if isHighSurrogate first then
      match rest with
      | [] => none
      | second :: _ =>
        if ¬isLowSurrogate second then none
        else some (0x10000 + ((first.toNat &&& 0x3ff) <<< 10) + (second.toNat &&& 0x3ff), 2)
    else if isLowSurrogate first then none
    else some (first.toNat, 1)

/-- A byte with six bits of a character. -/
def tailByte (val : Nat) : UInt8 := UInt8.ofNat (0x80 ||| (val &&& 0x3f))

/-- The loop of `utf8_wcstombs`, with `room` bytes left in the buffer. -/
def wcstombsLoop (room : Nat) (src : List UInt16) (status : Status) : List UInt8 × Status :=
  match src with
  | [] => ([], status)
  | ch :: src =>
    if ch < 0x80 then
      if room < 1 then ([], .bufferTooSmall)
      else
        let tail := wcstombsLoop (room - 1) src status
        (ch.toUInt8 :: tail.1, tail.2)
    else if ch < 0x800 then
      if room < 2 then ([], .bufferTooSmall)
      else
        let tail := wcstombsLoop (room - 2) src status
        (UInt8.ofNat (0xc0 ||| (ch.toNat >>> 6)) :: tailByte ch.toNat :: tail.1, tail.2)
    else
      let found := getUtf16 (ch :: src)
      let status := if found.isNone then .someNotMapped else status
      let val := (found.getD (0xfffd, 0)).1
      if val < 0x10000 then
        if room < 3 then ([], .bufferTooSmall)
        else
          let tail := wcstombsLoop (room - 3) src status
          (UInt8.ofNat (0xe0 ||| (val >>> 12)) :: tailByte (val >>> 6) :: tailByte val :: tail.1,
            tail.2)
      else
        if room < 4 then ([], .bufferTooSmall)
        else
          let tail := wcstombsLoop (room - 4) src.tail status
          (UInt8.ofNat (0xf0 ||| (val >>> 18)) :: tailByte (val >>> 12) :: tailByte (val >>> 6) ::
            tailByte val :: tail.1, tail.2)
termination_by src.length
decreasing_by
  · exact lt_succ_self _
  · exact lt_succ_self _
  · exact lt_succ_self _
  · exact lt_succ_of_le (by simp)

/-- `utf8_wcstombs`, into a buffer of `dstlen` bytes. -/
def utf8Wcstombs (dstlen : Nat) (src : List UInt16) : List UInt8 × Status :=
  wcstombsLoop dstlen src .success

/-! ### One character -/

theorem xor_tail : ∀ t, t < 64 → (ofNat (t + 128) ^^^ 0x80).toNat = t := by
  decide +kernel

theorem tail_of_xor :
    ∀ c : UInt8, (c ^^^ 0x80).toNat < 64 → c = ofNat ((c ^^^ 0x80).toNat + 128) :=
  forall_byte (by decide +kernel)

variable {c : Char} {ch : UInt8} {h s t u n room : Nat}

theorem shift_or (res : Nat) (less : t < 64) : (res <<< 6) ||| t = res * 64 + t := by
  rw [← shiftLeft_add_eq_or_of_lt less, shiftLeft_eq]

section Decode

variable {res v : Nat} {str rest : List UInt8}

section Valid

variable (valid : v ≤ 0x10ffff)
include valid

theorem invalid_ne (left : List UInt8) : (invalid, left) ≠ (v, rest) := by
  intro same
  have number : invalid = v := congrArg Prod.fst same
  rw [invalid] at number
  omega

theorem refuse_iff {refused : Prop} [Decidable refused] {left : List UInt8}
    {decoding : Nat × List UInt8} :
    (if refused then (invalid, left) else decoding) = (v, rest) ↔ ¬refused ∧ decoding = (v, rest) := by
  split
  · next refuse => exact iff_of_false (invalid_ne valid left) fun both => both.1 refuse
  · next passes => exact (and_iff_right passes).symm

/-- A number is returned only if the next byte holds six of its bits. -/
theorem tail_iff (c : UInt8) (left : List UInt8) (body : Nat → Nat × List UInt8) :
    (if (c ^^^ 0x80).toNat ≥ 0x40 then (invalid, left)
      else body ((res <<< 6) ||| (c ^^^ 0x80).toNat)) = (v, rest) ↔
      ∃ t, t < 64 ∧ c = ofNat (t + 128) ∧ body (res * 64 + t) = (v, rest) := by
  rw [refuse_iff valid, ge_iff_le, not_le]
  constructor
  · rintro ⟨less, decoded⟩
    rw [shift_or res less] at decoded
    exact ⟨_, less, tail_of_xor c less, decoded⟩
  · rintro ⟨t, less, rfl, decoded⟩
    rw [xor_tail t less, shift_or res less]
    exact ⟨less, decoded⟩

/-- The number is what was read before, with the six bits of one more byte. -/
theorem decodeOne_iff : decodeOne res str = (v, rest) ↔
    ∃ t, t < 64 ∧ str = ofNat (t + 128) :: rest ∧ v = res * 64 + t ∧ 0x80 ≤ v := by
  cases str with
  | nil => simpa [decodeOne] using invalid_ne valid []
  | cons c str =>
    rw [decodeOne, tail_iff valid c _ fun res => if res < 0x80 then (invalid, str) else (res, str)]
    refine exists_congr fun t => and_congr_right fun less => ?_
    rw [refuse_iff valid, Prod.mk.injEq, cons.injEq]
    constructor
    · rintro ⟨rfl, large, rfl, rfl⟩
      exact ⟨⟨rfl, rfl⟩, rfl, le_of_not_gt large⟩
    · rintro ⟨⟨rfl, rfl⟩, rfl, large⟩
      exact ⟨rfl, not_lt.mpr large, rfl, rfl⟩

theorem decodeTwo_iff : decodeTwo res str = (v, rest) ↔
    ∃ t tail, t < 64 ∧ str = ofNat (t + 128) :: tail ∧ 0x20 ≤ res * 64 + t ∧
      res * 64 + t < 0x4400 ∧ ¬(0x360 ≤ res * 64 + t ∧ res * 64 + t ≤ 0x37f) ∧
      decodeOne (res * 64 + t) tail = (v, rest) := by
  cases str with
  | nil => simpa [decodeTwo] using invalid_ne valid []
  | cons c str =>
    rw [decodeTwo, tail_iff valid c _ fun res =>
      if res ≥ 0x110000 >>> 6 then (invalid, c :: str)
      else if res < 0x20 then (invalid, str)
      else if res ≥ 0xd800 >>> 6 ∧ res ≤ 0xdfff >>> 6 then (invalid, str)
      else decodeOne res str]
    refine exists_congr fun t => ?_
    simp only [refuse_iff valid, cons.injEq]
    constructor
    · rintro ⟨less, rfl, large, small, surrogate, decoded⟩
      exact ⟨str, less, ⟨rfl, rfl⟩, le_of_not_gt small, lt_of_not_ge large, surrogate, decoded⟩
    · rintro ⟨tail, less, ⟨rfl, rfl⟩, small, large, surrogate, decoded⟩
      exact ⟨less, rfl, not_le.mpr large, not_lt.mpr small, surrogate, decoded⟩

theorem decodeThree_iff : decodeThree res str = (v, rest) ↔
    ∃ t tail, t < 64 ∧ str = ofNat (t + 128) :: tail ∧ 0x10 ≤ res * 64 + t ∧
      decodeTwo (res * 64 + t) tail = (v, rest) := by
  cases str with
  | nil => simpa [decodeThree] using invalid_ne valid []
  | cons c str =>
    rw [decodeThree, tail_iff valid c _ fun res => if res < 0x10 then (invalid, str) else decodeTwo res str]
    refine exists_congr fun t => ?_
    simp only [refuse_iff valid, cons.injEq]
    constructor
    · rintro ⟨less, rfl, small, decoded⟩
      exact ⟨str, less, ⟨rfl, rfl⟩, le_of_not_gt small, decoded⟩
    · rintro ⟨tail, less, ⟨rfl, rfl⟩, small, decoded⟩
      exact ⟨less, rfl, not_lt.mpr small, decoded⟩

end Valid

/-- How many bytes follow a first byte, and its bits of the character. -/
theorem first_eq : ∀ ch : UInt8, (utf8Length.getD (ch.toNat - 0x80) 0,
      ch.toNat &&& utf8Mask.getD (utf8Length.getD (ch.toNat - 0x80) 0) 0) =
    if ch.toNat < 0xc2 ∨ 0xf5 ≤ ch.toNat then (0, ch.toNat &&& 0x7f)
    else if ch.toNat < 0xe0 then (1, ch.toNat - 0xc0)
    else if ch.toNat < 0xf0 then (2, ch.toNat - 0xe0) else (3, ch.toNat - 0xf0) :=
  forall_byte (by decide +kernel)

/-- What the first byte decides. The length that is checked there is enforced by the bytes that are
read as well. -/
theorem decodeUtf8Char_first (valid : v ≤ 0x10ffff) (ch : UInt8) :
    decodeUtf8Char ch str = (v, rest) ↔
      (0xc2 ≤ ch.toNat ∧ ch.toNat < 0xe0 ∧ decodeOne (ch.toNat - 0xc0) str = (v, rest)) ∨
      (0xe0 ≤ ch.toNat ∧ ch.toNat < 0xf0 ∧ decodeTwo (ch.toNat - 0xe0) str = (v, rest)) ∨
      (0xf0 ≤ ch.toNat ∧ ch.toNat < 0xf5 ∧ decodeThree (ch.toNat - 0xf0) str = (v, rest)) := by
  have long {n : Nat} {decoding : Nat × List UInt8} (enough : decoding = (v, rest) → n ≤ str.length) :
      (if str.length < n then (invalid, []) else decoding) = (v, rest) ↔ decoding = (v, rest) :=
    (refuse_iff valid).trans (and_iff_right_of_imp fun decoded => not_lt.mpr (enough decoded))
  have one {n : Nat} {str : List UInt8} (decoded : decodeOne n str = (v, rest)) : 1 ≤ str.length := by
    obtain ⟨u, _, rfl, _⟩ := (decodeOne_iff valid).mp decoded
    simp
  have two {n : Nat} {str : List UInt8} (decoded : decodeTwo n str = (v, rest)) : 2 ≤ str.length := by
    obtain ⟨t, _, _, rfl, _, _, _, decoded⟩ := (decodeTwo_iff valid).mp decoded
    exact succ_le_succ (one decoded)
  have three {n : Nat} (decoded : decodeThree n str = (v, rest)) : 3 ≤ str.length := by
    obtain ⟨s, _, _, rfl, _, decoded⟩ := (decodeThree_iff valid).mp decoded
    exact succ_le_succ (two decoded)
  have first := first_eq ch
  split_ifs at first with other c2 e0
  all_goals
    obtain ⟨isLen, isRes⟩ := Prod.mk.inj first
    rw [decodeUtf8Char, isRes, isLen]
  · exact (long fun _ => zero_le _).trans (iff_of_false (invalid_ne valid str) (by omega))
  · refine (long one).trans ⟨fun decoded => .inl ⟨by omega, c2, decoded⟩, ?_⟩
    rintro (⟨_, _, decoded⟩ | ⟨_, _, _⟩ | ⟨_, _, _⟩) <;> first | exact decoded | omega
  · refine (long two).trans ⟨fun decoded => .inr (.inl ⟨by omega, e0, decoded⟩), ?_⟩
    rintro (⟨_, _, _⟩ | ⟨_, _, decoded⟩ | ⟨_, _, _⟩) <;> first | exact decoded | omega
  · refine (long three).trans ⟨fun decoded => .inr (.inr ⟨by omega, by omega, decoded⟩), ?_⟩
    rintro (⟨_, _, _⟩ | ⟨_, _, _⟩ | ⟨_, _, decoded⟩) <;> first | exact decoded | omega

/-! ### The encoding of a character, by its digits to the base 64 -/

theorem exists_char (scalar : v.isValidChar) : ∃ c : Char, c.val.toNat = v :=
  ⟨Char.ofNatAux v scalar, rfl⟩

theorem encode_one (ascii : c.val.toNat < 0x80) :
    String.utf8EncodeChar c = [ofNat c.val.toNat] := by
  unfold String.utf8EncodeChar
  rw [if_pos (by omega)]

section Encode

variable {v : Nat} (value : c.val.toNat = v)
include value

theorem encode_two (low : 0x80 ≤ v) (high : v < 0x800) :
    String.utf8EncodeChar c = [ofNat (v / 64 + 192), ofNat (v % 64 + 128)] := by
  have first : v / 64 % 32 = v / 64 := by omega
  unfold String.utf8EncodeChar
  rw [value, if_neg (by omega), if_pos (by omega), first]

theorem encode_three (low : 0x800 ≤ v) (high : v < 0x10000) : String.utf8EncodeChar c =
    [ofNat (v / 4096 + 224), ofNat (v / 64 % 64 + 128), ofNat (v % 64 + 128)] := by
  have first : v / 4096 % 16 = v / 4096 := by omega
  unfold String.utf8EncodeChar
  rw [value, if_neg (by omega), if_neg (by omega), if_pos (by omega), first]

theorem encode_four (low : 0x10000 ≤ v) (high : v ≤ 0x10ffff) : String.utf8EncodeChar c =
    [ofNat (v / 262144 + 240), ofNat (v / 4096 % 64 + 128), ofNat (v / 64 % 64 + 128),
      ofNat (v % 64 + 128)] := by
  have first : v / 262144 % 8 = v / 262144 := by omega
  unfold String.utf8EncodeChar
  rw [value, if_neg (by omega), if_neg (by omega), if_neg (by omega), first]

end Encode

theorem encoded_of_decodeUtf8Char (valid : v ≤ 0x10ffff) (decoded : decodeUtf8Char ch str = (v, rest)) :
    ∃ c : Char, c.val.toNat = v ∧ ch :: str = String.utf8EncodeChar c ++ rest := by
  rcases (decodeUtf8Char_first valid ch).mp decoded with
    ⟨low, high, decoded⟩ | ⟨low, high, decoded⟩ | ⟨low, high, decoded⟩
  · obtain ⟨t, less, rfl, rfl, small⟩ := (decodeOne_iff valid).mp decoded
    generalize isValue : (ch.toNat - 0xc0) * 64 + t = v at *
    obtain ⟨c, value⟩ := @exists_char v (by unfold Nat.isValidChar; omega)
    refine ⟨c, value, ?_⟩
    rw [encode_two value small (by omega), show v / 64 + 192 = ch.toNat by omega,
      show v % 64 = t by omega, UInt8.ofNat_toNat]
    rfl
  · obtain ⟨t, tail, less, rfl, small, large, surrogate, decoded⟩ := (decodeTwo_iff valid).mp decoded
    obtain ⟨u, lessU, rfl, rfl, _⟩ := (decodeOne_iff valid).mp decoded
    generalize isValue : ((ch.toNat - 0xe0) * 64 + t) * 64 + u = v at *
    obtain ⟨c, value⟩ := @exists_char v (by unfold Nat.isValidChar; omega)
    refine ⟨c, value, ?_⟩
    rw [encode_three value (by omega) (by omega), show v / 4096 + 224 = ch.toNat by omega,
      show v / 64 % 64 = t by omega, show v % 64 = u by omega, UInt8.ofNat_toNat]
    rfl
  · obtain ⟨s, tail, lessS, rfl, four, decoded⟩ := (decodeThree_iff valid).mp decoded
    obtain ⟨t, tail, less, rfl, small, large, surrogate, decoded⟩ := (decodeTwo_iff valid).mp decoded
    obtain ⟨u, lessU, rfl, rfl, _⟩ := (decodeOne_iff valid).mp decoded
    generalize isValue : (((ch.toNat - 0xf0) * 64 + s) * 64 + t) * 64 + u = v at *
    obtain ⟨c, value⟩ := @exists_char v (by unfold Nat.isValidChar; omega)
    refine ⟨c, value, ?_⟩
    rw [encode_four value (by omega) valid, show v / 262144 + 240 = ch.toNat by omega,
      show v / 4096 % 64 = s by omega, show v / 64 % 64 = t by omega, show v % 64 = u by omega,
      UInt8.ofNat_toNat]
    rfl

theorem decodeUtf8Char_of_encoded (valid : c.val.toNat ≤ 0x10ffff) (more : 0x80 ≤ ch.toNat)
    (same : ch :: str = String.utf8EncodeChar c ++ rest) :
    decodeUtf8Char ch str = (c.val.toNat, rest) := by
  rw [decodeUtf8Char_first valid ch]
  have range : c.val.toNat.isValidChar := c.valid
  have first {n : Nat} (less : n < 256) (isFirst : ch = ofNat n) : ch.toNat = n := by
    rw [isFirst, toNat_ofNat_of_lt' less]
  generalize value : c.val.toNat = v at *
  rcases lt_or_ge v 0x80 with ascii | two
  · rw [encode_one (by omega)] at same
    have := first (by omega) (cons.inj same).1
    omega
  rcases lt_or_ge v 0x800 with below | three
  · rw [encode_two value two below] at same
    obtain ⟨isFirst, rfl⟩ := cons.inj same
    refine .inl ?_
    rw [first (by omega) isFirst]
    refine ⟨by omega, by omega, (decodeOne_iff valid).mpr ?_⟩
    exact ⟨v % 64, by omega, rfl, by omega, by omega⟩
  rcases lt_or_ge v 0x10000 with below | four
  · rw [encode_three value three below] at same
    obtain ⟨isFirst, rfl⟩ := cons.inj same
    refine .inr (.inl ?_)
    rw [first (by omega) isFirst]
    refine ⟨by omega, by omega, (decodeTwo_iff valid).mpr ?_⟩
    refine ⟨v / 64 % 64, _, by omega, rfl, by omega, by omega, by omega, ?_⟩
    exact (decodeOne_iff valid).mpr ⟨v % 64, by omega, rfl, by omega, by omega⟩
  · rw [encode_four value four valid] at same
    obtain ⟨isFirst, rfl⟩ := cons.inj same
    refine .inr (.inr ?_)
    rw [first (by omega) isFirst]
    refine ⟨by omega, by omega, (decodeThree_iff valid).mpr ?_⟩
    refine ⟨v / 4096 % 64, _, by omega, rfl, by omega, (decodeTwo_iff valid).mpr ?_⟩
    refine ⟨v / 64 % 64, _, by omega, rfl, by omega, by omega, by omega, ?_⟩
    exact (decodeOne_iff valid).mpr ⟨v % 64, by omega, rfl, by omega, by omega⟩

/-- **A number is returned exactly for the encoding of a character.** -/
theorem decodeUtf8Char_iff (valid : v ≤ 0x10ffff) (more : 0x80 ≤ ch.toNat) :
    decodeUtf8Char ch str = (v, rest) ↔
      ∃ c : Char, c.val.toNat = v ∧ ch :: str = String.utf8EncodeChar c ++ rest := by
  constructor
  · exact encoded_of_decodeUtf8Char valid
  · rintro ⟨c, rfl, same⟩
    exact decodeUtf8Char_of_encoded valid more same

end Decode

/-! ### UTF-16 -/

/-- The encoding of a character in UTF-16: one unit, or a pair of surrogates. -/
def utf16EncodeChar (c : Char) : List UInt16 :=
  let v := c.val.toNat
  if v < 0x10000 then [UInt16.ofNat v]
  else [UInt16.ofNat (0xd800 + (v - 0x10000) / 0x400), UInt16.ofNat (0xdc00 + (v - 0x10000) % 0x400)]

theorem surrogates_eq {v : Nat} (valid : v ≤ 0x10ffff) (long : 0x10000 ≤ v) :
    surrogates v = (UInt16.ofNat (0xd800 + (v - 0x10000) / 0x400),
      UInt16.ofNat (0xdc00 + (v - 0x10000) % 0x400)) := by
  have bits (high : Nat) {n : Nat} (less : n < 2 ^ 10) : (high <<< 10) ||| n = high <<< 10 + n :=
    (shiftLeft_add_eq_or_of_lt less high).symm
  have high := @bits 54 ((v - 0x10000) / 0x400) (by omega)
  have low := @bits 55 ((v - 0x10000) % 0x400) (by omega)
  simp only [reduceShiftLeft] at high low
  simp only [surrogates, shiftRight_eq_div_pow, reducePow, high]
  rw [and_two_pow_sub_one_eq_mod _ 10]
  simp only [reducePow, low]

theorem toNat_unit (less : n < 0x10000) : (UInt16.ofNat n).toNat = n :=
  UInt16.toNat_ofNat_of_lt' less

theorem toNat_byte (less : n < 256) : (ofNat n).toNat = n :=
  toNat_ofNat_of_lt' less

theorem isHighSurrogate_iff (ch : UInt16) :
    isHighSurrogate ch = true ↔ 0xd800 ≤ ch.toNat ∧ ch.toNat ≤ 0xdbff := by
  simp [isHighSurrogate, UInt16.le_iff_toNat_le]

theorem isLowSurrogate_iff (ch : UInt16) :
    isLowSurrogate ch = true ↔ 0xdc00 ≤ ch.toNat ∧ ch.toNat ≤ 0xdfff := by
  simp [isLowSurrogate, UInt16.le_iff_toNat_le]

theorem getUtf16_encode (c : Char) (rest : List UInt16) :
    getUtf16 (utf16EncodeChar c ++ rest) = some (c.val.toNat, (utf16EncodeChar c).length) := by
  have range : c.val.toNat.isValidChar := c.valid
  generalize value : c.val.toNat = v at *
  simp only [utf16EncodeChar, value]
  split
  · next short =>
    have number := toNat_unit short
    have notHigh : ¬isHighSurrogate (UInt16.ofNat v) = true := by
      rw [isHighSurrogate_iff, number]
      omega
    have notLow : ¬isLowSurrogate (UInt16.ofNat v) = true := by
      rw [isLowSurrogate_iff, number]
      omega
    simp only [getUtf16, cons_append, nil_append, if_neg notHigh, if_neg notLow, number,
      length_cons, length_nil]
  · next long =>
    have high := @toNat_unit (0xd800 + (v - 0x10000) / 0x400) (by omega)
    have low := @toNat_unit (0xdc00 + (v - 0x10000) % 0x400) (by omega)
    have isHigh : isHighSurrogate (UInt16.ofNat (0xd800 + (v - 0x10000) / 0x400)) = true := by
      rw [isHighSurrogate_iff, high]
      omega
    have isLow : isLowSurrogate (UInt16.ofNat (0xdc00 + (v - 0x10000) % 0x400)) = true := by
      rw [isLowSurrogate_iff, low]
      omega
    simp only [getUtf16, cons_append, nil_append, if_pos isHigh, isLow, not_true, if_false,
      high, low, length_cons, length_nil]
    have sum : 0x10000 + (((0xd800 + (v - 0x10000) / 0x400) &&& 0x3ff) <<< 10) +
        ((0xdc00 + (v - 0x10000) % 0x400) &&& 0x3ff) = v := by
      rw [and_two_pow_sub_one_eq_mod _ 10, and_two_pow_sub_one_eq_mod _ 10, shiftLeft_eq]
      omega
    rw [sum]

/-! ### Strings -/

theorem units_ascii (value : c.val.toNat = ch.toNat) : utf16EncodeChar c = [ch.toUInt16] := by
  have less := ch.toNat_lt
  rw [utf16EncodeChar, value, if_pos (by omega)]
  congr 1
  apply UInt16.toNat_inj.mp
  rw [toNat_unit (by omega), toNat_toUInt16]

theorem units_short (short : c.val.toNat < 0x10000) :
    utf16EncodeChar c = [UInt16.ofNat c.val.toNat] := by
  rw [utf16EncodeChar, if_pos short]

theorem units_long (valid : c.val.toNat ≤ 0x10ffff) (long : 0x10000 ≤ c.val.toNat) :
    utf16EncodeChar c = [(surrogates c.val.toNat).1, (surrogates c.val.toNat).2] := by
  rw [utf16EncodeChar, if_neg (by omega), surrogates_eq valid long]

theorem encode_first (more : 0x80 ≤ c.val.toNat) :
    ∃ ch str, String.utf8EncodeChar c = ch :: str ∧ 0x80 ≤ ch.toNat := by
  have byte {n : Nat} (low : 0x80 ≤ n) (high : n < 256) : 0x80 ≤ (ofNat n).toNat := by
    rw [toNat_byte high]
    exact low
  unfold String.utf8EncodeChar
  rw [if_neg (by omega)]
  split_ifs
  · exact ⟨_, _, rfl, byte (by omega) (by omega)⟩
  · exact ⟨_, _, rfl, byte (by omega) (by omega)⟩
  · exact ⟨_, _, rfl, byte (by omega) (by omega)⟩

/-- **One character to UTF-16**: the loop reads its bytes and writes its units. -/
theorem mbstowcsLoop_char (c : Char) (rest : List UInt8) (status : Status)
    (enough : (utf16EncodeChar c).length ≤ room) :
    mbstowcsLoop room (String.utf8EncodeChar c ++ rest) status =
      (utf16EncodeChar c ++ (mbstowcsLoop (room - (utf16EncodeChar c).length) rest status).1,
        (mbstowcsLoop (room - (utf16EncodeChar c).length) rest status).2) := by
  have range : c.val.toNat.isValidChar := c.valid
  rcases lt_or_ge c.val.toNat 0x80 with ascii | more
  · have byte := @toNat_byte c.val.toNat (by omega)
    have short : ofNat c.val.toNat < 0x80 := byte.trans_lt ascii
    rw [units_ascii byte.symm] at enough ⊢
    simp only [length_cons, length_nil] at enough
    rw [encode_one ascii, singleton_append, mbstowcsLoop, if_neg (by omega), if_pos short]
    rfl
  · obtain ⟨ch, str, encoded, first⟩ := encode_first more
    have decoded : decodeUtf8Char ch (str ++ rest) = (c.val.toNat, rest) :=
      (decodeUtf8Char_iff (by omega) first).mpr ⟨c, rfl, by rw [encoded, cons_append]⟩
    have notAscii : ¬ch < 0x80 := not_lt.mpr first
    rw [encoded, cons_append, mbstowcsLoop]
    simp only [decoded, if_neg notAscii]
    rcases lt_or_ge c.val.toNat 0x10000 with short | long
    · rw [units_short short] at enough ⊢
      simp only [length_cons, length_nil] at enough
      rw [if_neg (by omega), if_pos (by omega)]
      rfl
    · rw [units_long (by omega) long] at enough ⊢
      simp only [length_cons, length_nil] at enough
      rw [if_neg (by omega), if_neg (by omega), if_pos (by omega), if_neg (by omega)]
      rfl

theorem or_tail : ∀ t, t < 64 → 0x80 ||| t = t + 128 := by decide +kernel

theorem tailByte_eq (val : Nat) : tailByte val = ofNat (val % 64 + 128) := by
  rw [tailByte, and_two_pow_sub_one_eq_mod _ 6, or_tail _ (mod_lt _ (by decide))]

theorem or_two : ∀ h, h < 32 → 0xc0 ||| h = h + 192 := by decide +kernel

theorem or_three : ∀ h, h < 16 → 0xe0 ||| h = h + 224 := by decide +kernel

theorem or_four : ∀ h, h < 8 → 0xf0 ||| h = h + 240 := by decide +kernel

/-- **One character to UTF-8**: the loop reads its units and writes its bytes. -/
theorem wcstombsLoop_char (c : Char) (rest : List UInt16) (status : Status)
    (enough : (String.utf8EncodeChar c).length ≤ room) :
    wcstombsLoop room (utf16EncodeChar c ++ rest) status =
      (String.utf8EncodeChar c ++
          (wcstombsLoop (room - (String.utf8EncodeChar c).length) rest status).1,
        (wcstombsLoop (room - (String.utf8EncodeChar c).length) rest status).2) := by
  have range : c.val.toNat.isValidChar := c.valid
  have found := getUtf16_encode c rest
  generalize value : c.val.toNat = v at *
  rcases lt_or_ge v 0x10000 with short | long
  · have units : utf16EncodeChar c = [UInt16.ofNat v] := by
      rw [← value] at short ⊢
      exact units_short short
    have number := toNat_unit short
    rw [units, singleton_append] at found ⊢
    rcases lt_or_ge v 0x80 with ascii | two
    · have byte : (UInt16.ofNat v).toUInt8 = ofNat v := by
        apply UInt8.toNat_inj.mp
        rw [UInt16.toNat_toUInt8, number, toNat_byte (by omega)]
        omega
      have bytes := @encode_one c (by omega)
      rw [value] at bytes
      rw [bytes] at enough ⊢
      simp only [length_cons, length_nil] at enough
      rw [wcstombsLoop, if_pos (show UInt16.ofNat v < 0x80 from number.trans_lt ascii), if_neg (by omega), byte]
      rfl
    have notAscii : ¬UInt16.ofNat v < 0x80 := not_lt.mpr (two.trans_eq number.symm)
    rcases lt_or_ge v 0x800 with below | three
    · rw [encode_two value two below] at enough ⊢
      simp only [length_cons, length_nil] at enough
      rw [wcstombsLoop, if_neg notAscii, if_pos (show UInt16.ofNat v < 0x800 from number.trans_lt below),
        if_neg (by omega), number, tailByte_eq, shiftRight_eq_div_pow, or_two _ (by omega)]
      rfl
    · have notTwo : ¬UInt16.ofNat v < 0x800 := not_lt.mpr (three.trans_eq number.symm)
      rw [encode_three value three short] at enough ⊢
      simp only [length_cons, length_nil] at enough
      rw [wcstombsLoop, if_neg notAscii, if_neg notTwo]
      simp only [found, isNone_some, getD_some, Bool.false_eq_true, if_false, if_pos short,
        tailByte_eq, shiftRight_eq_div_pow]
      rw [if_neg (by omega), or_three _ (by omega)]
      rfl
  · have units : utf16EncodeChar c = [UInt16.ofNat (0xd800 + (v - 0x10000) / 0x400),
        UInt16.ofNat (0xdc00 + (v - 0x10000) % 0x400)] := by
      rw [utf16EncodeChar, value, if_neg (by omega)]
    have number := @toNat_unit (0xd800 + (v - 0x10000) / 0x400) (by omega)
    rw [units, cons_append, singleton_append] at found ⊢
    rw [encode_four value long (by omega)] at enough ⊢
    simp only [length_cons, length_nil] at enough
    have notAscii : ¬UInt16.ofNat (0xd800 + (v - 0x10000) / 0x400) < 0x80 :=
      not_lt.mpr (number.ge.trans' (show 0x80 ≤ _ by omega))
    have notTwo : ¬UInt16.ofNat (0xd800 + (v - 0x10000) / 0x400) < 0x800 :=
      not_lt.mpr (number.ge.trans' (show 0x800 ≤ _ by omega))
    rw [wcstombsLoop, if_neg notAscii, if_neg notTwo]
    simp only [found, isNone_some, getD_some, Bool.false_eq_true, if_false,
      if_neg (not_lt.mpr long), tailByte_eq, shiftRight_eq_div_pow]
    rw [if_neg (by omega), or_four _ (by omega)]
    rfl

/-- The bytes of a string of characters. -/
def utf8Encode (chars : List Char) : List UInt8 := chars.flatMap String.utf8EncodeChar

/-- Its units. -/
def utf16Encode (chars : List Char) : List UInt16 := chars.flatMap utf16EncodeChar

/-- A loop that converts one character after the other. -/
theorem loop_chars {α β : Type} {loop : Nat → List α → Status → List β × Status}
    {read : Char → List α} {write : Char → List β} (nil : ∀ room status, loop room [] status = ([], status))
    (char : ∀ {room} c rest status, (write c).length ≤ room → loop room (read c ++ rest) status =
      (write c ++ (loop (room - (write c).length) rest status).1,
        (loop (room - (write c).length) rest status).2))
    (chars : List Char) (status : Status) {room : Nat} (enough : (chars.flatMap write).length ≤ room) :
    loop room (chars.flatMap read) status = (chars.flatMap write, status) := by
  induction chars generalizing room with
  | nil => exact nil room status
  | cons c chars ih =>
    rw [flatMap_cons, length_append] at enough
    rw [flatMap_cons, flatMap_cons, char c _ status (by omega), ih (by omega)]

theorem mbstowcsLoop_chars (chars : List Char) (status : Status) {room : Nat}
    (enough : (utf16Encode chars).length ≤ room) :
    mbstowcsLoop room (utf8Encode chars) status = (utf16Encode chars, status) :=
  loop_chars (fun _ _ => by rw [mbstowcsLoop]) mbstowcsLoop_char chars status enough

theorem wcstombsLoop_chars (chars : List Char) (status : Status) {room : Nat}
    (enough : (utf8Encode chars).length ≤ room) :
    wcstombsLoop room (utf16Encode chars) status = (utf8Encode chars, status) :=
  loop_chars (fun _ _ => by rw [wcstombsLoop]) wcstombsLoop_char chars status enough

theorem Encoded.cons {src : List UInt8} {dst : List UInt16} (c : Char)
    (rest : ∃ chars, src = utf8Encode chars ∧ dst = utf16Encode chars) :
    ∃ chars, String.utf8EncodeChar c ++ src = utf8Encode chars ∧
      utf16EncodeChar c ++ dst = utf16Encode chars := by
  obtain ⟨chars, rfl, rfl⟩ := rest
  exact ⟨c :: chars, rfl, rfl⟩

/-- **What is accepted is well formed**: a run of the loop that ends in success has read characters
only. A failure stays: the status is only ever set to one. -/
theorem mbstowcsLoop_success (room : Nat) (src : List UInt8) (status : Status) :
    (mbstowcsLoop room src status).2 = .success → status = .success ∧
      ∃ chars, src = utf8Encode chars ∧ (mbstowcsLoop room src status).1 = utf16Encode chars := by
  fun_induction mbstowcsLoop room src status with
  | case1 room status => exact fun success => ⟨success, [], rfl, rfl⟩
  | case2 => exact nofun
  | case3 room status ch src _ ascii tail ih =>
    intro success
    obtain ⟨start, rest⟩ := ih success
    have less : ch.toNat < 0x80 := ascii
    obtain ⟨c, value⟩ := @exists_char ch.toNat (.inl (by omega))
    have chars := Encoded.cons c rest
    rw [units_ascii value, encode_one (by omega), value, UInt8.ofNat_toNat] at chars
    exact ⟨start, chars⟩
  | case4 room status ch src _ notAscii decoded one tail ih =>
    intro success
    obtain ⟨start, rest⟩ := ih success
    obtain ⟨c, value, bytes⟩ := (decodeUtf8Char_iff (by omega) (le_of_not_gt notAscii)).mp
      (Prod.eta decoded).symm
    have chars := Encoded.cons c rest
    rw [← bytes, units_short (by omega), value] at chars
    exact ⟨start, chars⟩
  | case5 => exact nofun
  | case6 room status ch src _ notAscii decoded notOne two _ tail ih =>
    intro success
    obtain ⟨start, rest⟩ := ih success
    obtain ⟨c, value, bytes⟩ := (decodeUtf8Char_iff two (le_of_not_gt notAscii)).mp
      (Prod.eta decoded).symm
    have chars := Encoded.cons c rest
    rw [← bytes, units_long (by omega) (by omega), value] at chars
    exact ⟨start, chars⟩
  | case7 room status ch src _ notAscii decoded _ _ tail ih =>
    intro success
    exact nomatch (ih success).1

theorem utf16EncodeChar_length (c : Char) :
    (utf16EncodeChar c).length ≤ (String.utf8EncodeChar c).length := by
  unfold utf16EncodeChar String.utf8EncodeChar
  dsimp only
  split_ifs <;> simp
  omega

theorem utf16Encode_length (chars : List Char) :
    (utf16Encode chars).length ≤ (utf8Encode chars).length := by
  induction chars with
  | nil => exact le_rfl
  | cons c chars ih =>
    have one := utf16EncodeChar_length c
    simp only [utf16Encode, utf8Encode, flatMap_cons, length_append] at ih ⊢
    omega

/-- **The conversions are inverse to each other.** What a well formed string of units is converted to
is converted back to it. What is accepted as UTF-8 is converted back to the bytes it was read from;
so the accepted byte strings are the well formed ones. -/
theorem utf8_roundTrip :
    (∀ chars : List Char, ∃ bytes,
      (∀ dstlen, bytes.length ≤ dstlen →
        utf8Wcstombs dstlen (utf16Encode chars) = (bytes, .success)) ∧
      ∀ dstlen, (utf16Encode chars).length ≤ dstlen →
        utf8Mbstowcs dstlen bytes = (utf16Encode chars, .success)) ∧
    (∀ bytes dstlen, (utf8Mbstowcs dstlen bytes).2 = .success →
      ∀ size, bytes.length ≤ size →
        utf8Wcstombs size (utf8Mbstowcs dstlen bytes).1 = (bytes, .success)) ∧
    ∀ bytes dstlen, bytes.length ≤ dstlen →
      ((utf8Mbstowcs dstlen bytes).2 = .success ↔ ∃ chars, bytes = utf8Encode chars) := by
  refine ⟨fun chars => ⟨utf8Encode chars, ?_, ?_⟩, ?_, ?_⟩
  · exact fun dstlen enough => wcstombsLoop_chars chars .success enough
  · exact fun dstlen enough => mbstowcsLoop_chars chars .success enough
  · intro bytes dstlen success size enough
    obtain ⟨_, chars, rfl, units⟩ := mbstowcsLoop_success dstlen bytes .success success
    rw [utf8Mbstowcs, units]
    exact wcstombsLoop_chars chars .success enough
  · intro bytes dstlen enough
    constructor
    · intro success
      obtain ⟨_, chars, bytes, _⟩ := mbstowcsLoop_success dstlen bytes .success success
      exact ⟨chars, bytes⟩
    · rintro ⟨chars, rfl⟩
      have room := le_trans (utf16Encode_length chars) enough
      rw [utf8Mbstowcs, mbstowcsLoop_chars chars .success room]

end FreeWindows.Locale
