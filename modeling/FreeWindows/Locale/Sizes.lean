/-
**Sizes of converted strings.**

`utf8_wcstombs_size` and `utf8_mbstowcs_size` of `dlls/ntdll/locale_private.h`, which count what the
conversions write. Lengths are 32-bit numbers.

* `wcstombs_counts`, `mbstowcs_counts`: **every buffer gets an output or a part of it**, and the loops
  count how long it is;
* `sizes_agree_iff`: the sizes are right, except for a UTF-8 form of 2^32 bytes or more.
-/

import FreeWindows.Locale.Utf8

namespace FreeWindows.Locale

open List Nat

/-- The loop of `utf8_wcstombs_size`. -/
def wcstombsSizeLoop (len : Nat) (src : List UInt16) (status : Status) : Nat × Status :=
  match src with
  | [] => (len, status)
  | ch :: src =>
    if ch < 0x80 then wcstombsSizeLoop ((len + 1) % 2 ^ 32) src status
    else if ch < 0x800 then wcstombsSizeLoop ((len + 2) % 2 ^ 32) src status
    else
      let found := getUtf16 (ch :: src)
      let status := if found.isNone then .someNotMapped else status
      let val := (found.getD (0xfffd, 0)).1
      if val < 0x10000 then wcstombsSizeLoop ((len + 3) % 2 ^ 32) src status
      else wcstombsSizeLoop ((len + 4) % 2 ^ 32) src.tail status
termination_by src.length
decreasing_by
  · exact lt_succ_self _
  · exact lt_succ_self _
  · exact lt_succ_self _
  · exact lt_succ_of_le (by simp)

def utf8WcstombsSize (src : List UInt16) : Nat × Status := wcstombsSizeLoop 0 src .success

/-- The loop of `utf8_mbstowcs_size`. -/
def mbstowcsSizeLoop (len : Nat) (src : List UInt8) (status : Status) : Nat × Status :=
  match src with
  | [] => (len, status)
  | ch :: src =>
    if ch < 0x80 then mbstowcsSizeLoop ((len + 1) % 2 ^ 32) src status
    else
      let decoded := decodeUtf8Char ch src
      if decoded.1 > 0x10ffff then mbstowcsSizeLoop ((len + 1) % 2 ^ 32) decoded.2 .someNotMapped
      else if decoded.1 > 0xffff then mbstowcsSizeLoop ((len + 2) % 2 ^ 32) decoded.2 status
      else mbstowcsSizeLoop ((len + 1) % 2 ^ 32) decoded.2 status
termination_by src.length
decreasing_by
  · exact lt_succ_self _
  all_goals exact lt_succ_of_le (decodeUtf8Char_length ch src)

def utf8MbstowcsSize (src : List UInt8) : Nat × Status := mbstowcsSizeLoop 0 src .success

/-- A buffer of the reported size or more gets an output of this size, with the reported status; a
smaller one gets a part of it. -/
def SizeAgrees {α : Type} (sized : Nat × Status) (convert : Nat → List α × Status) : Prop :=
  ∃ out, out.length = sized.1 ∧ ∀ dstlen < 2 ^ 32,
    (sized.1 ≤ dstlen → convert dstlen = (out, sized.2)) ∧
    (dstlen < sized.1 → (convert dstlen).2 = .bufferTooSmall ∧ (convert dstlen).1 <+: out)

/-! ### The length of the UTF-8 form -/

/-- The bytes of a single unit; a lone surrogate is replaced by U+FFFD. -/
def unitBytes (ch : UInt16) : Nat := if ch < 0x80 then 1 else if ch < 0x800 then 2 else 3

def isPair (ch : UInt16) (src : List UInt16) : Bool := isHighSurrogate ch && src.head?.any isLowSurrogate

/-- The length of the UTF-8 form of a 16-bit string, with four bytes for a pair of surrogates. -/
def utf8Bytes : List UInt16 → Nat
  | [] => 0
  | ch :: src => if isPair ch src then 4 + utf8Bytes src.tail else unitBytes ch + utf8Bytes src
termination_by src => src.length
decreasing_by
  · exact lt_succ_of_le (by simp)
  · exact lt_succ_self _

theorem not_isPair {ch : UInt16} {src : List UInt16} (short : ch < 0x800) : ¬isPair ch src = true := by
  have := UInt16.lt_iff_toNat_lt.mp short
  rw [isPair, Bool.and_eq_true, isHighSurrogate_iff]
  simp only [UInt16.toNat_ofNat] at this
  omega

/-- Only a pair of surrogates is a character above U+FFFF. -/
theorem getUtf16_lt_iff (ch : UInt16) (src : List UInt16) :
    ((getUtf16 (ch :: src)).getD (0xfffd, 0)).1 < 0x10000 ↔ ¬isPair ch src = true := by
  unfold getUtf16 isPair
  dsimp only
  by_cases high : isHighSurrogate ch = true
  · rw [if_pos high, high, Bool.true_and]
    cases src with
    | nil => simp
    | cons second src =>
      by_cases low : isLowSurrogate second = true
      · simp [low, add_assoc]
      · simp [low]
  · rw [if_neg high, Bool.eq_false_iff.mpr high, Bool.false_and]
    split
    · simp
    · simpa using ch.toNat_lt

/-! ### Buffers of all lengths -/

section Cuts

variable {α : Type} {convert rest : Nat → List α × Status} {len total : Nat} {sized : Nat × Status}
  {out : List α} {status : Status}

/-- A buffer gets an output or, if it does not fit, a part of it. -/
def Cuts (convert : Nat → List α × Status) (out : List α) (status : Status) : Prop :=
  ∀ room, if out.length ≤ room then convert room = (out, status)
    else (convert room).2 = .bufferTooSmall ∧ (convert room).1 <+: out

/-- The output has the length `total`, and the size is this length, counted from `len` on. -/
def Counts (convert : Nat → List α × Status) (len total : Nat) (sized : Nat × Status) : Prop :=
  ∃ out, out.length = total ∧ sized.1 = (len + total) % 2 ^ 32 ∧ sized.2 ≠ .bufferTooSmall ∧
    Cuts convert out sized.2

theorem Counts.nil (bounded : len < 2 ^ 32) (mapped : status ≠ .bufferTooSmall)
    (done : ∀ room, convert room = ([], status)) : Counts convert len 0 (len, status) :=
  ⟨[], rfl, (mod_eq_of_lt bounded).symm, mapped, fun room => by rw [length_nil, if_pos (zero_le _), done]⟩

/-- **One round** of a loop: a piece is written, or a part of it if there is no room. -/
theorem Counts.cons (piece : List α) (counts : Counts rest ((len + piece.length) % 2 ^ 32) total sized)
    (step : ∀ room, ∃ part, part <+: piece ∧ convert room =
      if room < piece.length then (part, .bufferTooSmall)
      else (piece ++ (rest (room - piece.length)).1, (rest (room - piece.length)).2)) :
    Counts convert len (piece.length + total) sized := by
  obtain ⟨out, rfl, size, mapped, cuts⟩ := counts
  refine ⟨piece ++ out, length_append, ?_, mapped, fun room => ?_⟩
  · rw [size, mod_add_mod, add_assoc]
  obtain ⟨part, isPart, step⟩ := step room
  have behind := cuts (room - piece.length)
  rw [step, length_append]
  by_cases less : room < piece.length
  · rw [if_neg (by omega), if_pos less]
    exact ⟨rfl, isPart.trans (prefix_append ..)⟩
  rw [if_neg less]
  by_cases fits : piece.length + out.length ≤ room
  · rw [if_pos (by omega)] at behind
    rw [if_pos fits, behind]
  · rw [if_neg (by omega)] at behind
    rw [if_neg fits]
    exact ⟨behind.1, (prefix_append_right_inj _).mpr behind.2⟩

/-- A piece that is written as a whole. -/
theorem Counts.whole (piece : List α) (counts : Counts rest ((len + piece.length) % 2 ^ 32) total sized)
    (step : ∀ room, convert room = if room < piece.length then ([], .bufferTooSmall)
      else (piece ++ (rest (room - piece.length)).1, (rest (room - piece.length)).2)) :
    Counts convert len (piece.length + total) sized :=
  counts.cons piece fun room => ⟨[], nil_prefix, step room⟩

/-- **The size is right** if and only if it does not wrap. -/
theorem Counts.agrees_iff (counts : Counts convert 0 total sized) :
    SizeAgrees sized convert ↔ total < 2 ^ 32 := by
  obtain ⟨out, rfl, size, mapped, cuts⟩ := counts
  rw [zero_add] at size
  constructor
  · rintro ⟨_, _, agrees⟩
    by_contra long
    have less : sized.1 < 2 ^ 32 := size ▸ mod_lt _ (by decide)
    have here := cuts sized.1
    rw [if_neg (by omega), (agrees sized.1 less).1 le_rfl] at here
    exact mapped here.1
  · intro less
    rw [mod_eq_of_lt less] at size
    refine ⟨out, size.symm, fun dstlen _ => ⟨fun enough => ?_, fun short => ?_⟩⟩
    all_goals have here := cuts dstlen
    · rwa [if_pos (by omega)] at here
    · rwa [if_neg (by omega)] at here

end Cuts

theorem ite_mapped {found : Option (Nat × Nat)} {status : Status} (mapped : status ≠ .bufferTooSmall) :
    (if found.isNone then .someNotMapped else status) ≠ Status.bufferTooSmall := by
  split
  · nofun
  · exact mapped

theorem wcstombs_counts {len : Nat} (src : List UInt16) (status : Status) (bounded : len < 2 ^ 32)
    (mapped : status ≠ .bufferTooSmall) :
    Counts (wcstombsLoop · src status) len (utf8Bytes src) (wcstombsSizeLoop len src status) := by
  have less : ∀ n, n % 2 ^ 32 < 2 ^ 32 := fun n => mod_lt _ (by decide)
  fun_induction wcstombsSizeLoop len src status with
  | case1 len status =>
    rw [utf8Bytes]
    exact Counts.nil bounded mapped fun room => by rw [wcstombsLoop]
  | case2 len status ch src ascii ih =>
    rw [utf8Bytes, if_neg (not_isPair (UInt16.lt_trans ascii (by decide))), unitBytes, if_pos ascii]
    refine (ih (less _) mapped).whole [ch.toUInt8] fun room => ?_
    rw [wcstombsLoop, if_pos ascii]
    rfl
  | case3 len status ch src notAscii two ih =>
    rw [utf8Bytes, if_neg (not_isPair two), unitBytes, if_neg notAscii, if_pos two]
    refine (ih (less _) mapped).whole [UInt8.ofNat (0xc0 ||| (ch.toNat >>> 6)), tailByte ch.toNat]
      fun room => ?_
    rw [wcstombsLoop, if_neg notAscii, if_pos two]
    rfl
  | case4 len status ch src notAscii notTwo found status' val three ih =>
    rw [utf8Bytes, if_neg ((getUtf16_lt_iff ch src).mp three), unitBytes, if_neg notAscii, if_neg notTwo]
    refine (ih (less _) (ite_mapped mapped)).whole [UInt8.ofNat (0xe0 ||| (val >>> 12)), tailByte (val >>> 6),
      tailByte val] fun room => ?_
    rw [wcstombsLoop, if_neg notAscii, if_neg notTwo]
    exact if_pos three
  | case5 len status ch src notAscii notTwo found status' val four ih =>
    rw [utf8Bytes, if_pos (not_not.mp (mt (getUtf16_lt_iff ch src).mpr four))]
    refine (ih (less _) (ite_mapped mapped)).whole [UInt8.ofNat (0xf0 ||| (val >>> 18)), tailByte (val >>> 12),
      tailByte (val >>> 6), tailByte val] fun room => ?_
    rw [wcstombsLoop, if_neg notAscii, if_neg notTwo]
    exact if_neg four

/-- A pair of surrogates is made from more than one byte. -/
theorem decodeUtf8Char_pair {ch : UInt8} {src : List UInt8} (more : ¬ch < 0x80)
    (two : ¬(decodeUtf8Char ch src).1 ≤ 0xffff) (valid : (decodeUtf8Char ch src).1 ≤ 0x10ffff) :
    (decodeUtf8Char ch src).2.length < src.length := by
  obtain ⟨c, value, bytes⟩ := (decodeUtf8Char_iff valid (le_of_not_gt more)).mp
    (Prod.eta _).symm
  have long := utf16EncodeChar_length c
  rw [units_long (by omega) (by omega)] at long
  have total := congrArg length bytes
  simp only [length_cons, length_append, length_nil] at long total
  omega

/-- There are no more units than bytes. -/
theorem mbstowcs_counts {len : Nat} (src : List UInt8) (status : Status) (bounded : len < 2 ^ 32)
    (mapped : status ≠ .bufferTooSmall) : ∃ total ≤ src.length,
      Counts (mbstowcsLoop · src status) len total (mbstowcsSizeLoop len src status) := by
  have less : ∀ n, n % 2 ^ 32 < 2 ^ 32 := fun n => mod_lt _ (by decide)
  fun_induction mbstowcsSizeLoop len src status with
  | case1 len status => exact ⟨0, le_rfl, Counts.nil bounded mapped fun room => by rw [mbstowcsLoop]⟩
  | case2 len status ch src ascii ih =>
    obtain ⟨total, shorter, counts⟩ := ih (less _) mapped
    refine ⟨_, ?_, counts.whole [ch.toUInt16] fun room => ?_⟩
    · rw [length_singleton, length_cons, Nat.add_comm]
      exact Nat.succ_le_succ shorter
    rw [mbstowcsLoop, if_pos ascii]
    simp only [length_singleton, lt_one_iff]
    rfl
  | case3 len status ch src notAscii decoded bad ih =>
    obtain ⟨total, shorter, counts⟩ := ih (less _) (by decide)
    have behind : decoded.2.length ≤ src.length := decodeUtf8Char_length ch src
    refine ⟨_, ?_, counts.whole [0xfffd] fun room => ?_⟩
    · rw [length_singleton, length_cons]
      omega
    have isDecoded : decodeUtf8Char ch src = decoded := rfl
    clear_value decoded
    have notOne : ¬decoded.1 ≤ 0xffff := by omega
    rw [mbstowcsLoop, if_neg notAscii]
    simp only [isDecoded, if_neg notOne, if_neg (not_le.mpr bad), length_singleton, lt_one_iff]
    rfl
  | case4 len status ch src notAscii decoded good two ih =>
    obtain ⟨total, shorter, counts⟩ := ih (less _) mapped
    have behind : decoded.2.length < src.length :=
      decodeUtf8Char_pair notAscii (not_le.mpr two) (le_of_not_gt good)
    refine ⟨_, ?_, counts.cons [(surrogates decoded.1).1, (surrogates decoded.1).2]
      fun room => ⟨[(surrogates decoded.1).1].take room, ?_, ?_⟩⟩
    · simp only [length_cons, length_nil]
      omega
    · exact ( take_prefix ..).trans (prefix_append [_] [_])
    have isDecoded : decodeUtf8Char ch src = decoded := rfl
    clear_value decoded
    rw [mbstowcsLoop, if_neg notAscii]
    simp only [isDecoded, if_neg (not_le.mpr two), if_pos (le_of_not_gt good)]
    rcases room with _ | _ | room
    · rfl
    · rfl
    · rfl
  | case5 len status ch src notAscii decoded good one ih =>
    obtain ⟨total, shorter, counts⟩ := ih (less _) mapped
    have behind : decoded.2.length ≤ src.length := decodeUtf8Char_length ch src
    refine ⟨_, ?_, counts.whole [UInt16.ofNat decoded.1] fun room => ?_⟩
    · rw [length_singleton, length_cons]
      omega
    have isDecoded : decodeUtf8Char ch src = decoded := rfl
    clear_value decoded
    rw [mbstowcsLoop, if_neg notAscii]
    simp only [isDecoded, if_pos (le_of_not_gt one), length_singleton, lt_one_iff]
    rfl

/-- **When the sizes are right**: always for the conversion of UTF-8, and for the one to UTF-8 exactly
if its output is shorter than 2^32 bytes. Otherwise the size wraps around. -/
theorem sizes_agree_iff (units : List UInt16) {bytes : List UInt8} (short : bytes.length < 2 ^ 32) :
    (SizeAgrees (utf8WcstombsSize units) (utf8Wcstombs · units) ↔ utf8Bytes units < 2 ^ 32) ∧
    SizeAgrees (utf8MbstowcsSize bytes) (utf8Mbstowcs · bytes) := by
  obtain ⟨total, shorter, counts⟩ := mbstowcs_counts bytes .success (by decide : 0 < 2 ^ 32) nofun
  exact ⟨(wcstombs_counts units .success (by decide) nofun).agrees_iff,
    counts.agrees_iff.mpr (shorter.trans_lt short)⟩

/-- A letter, a lone surrogate and a pair; a truncated character and two bytes of another. -/
theorem sizes_agree_iff_truncated :
    SizeAgrees (utf8WcstombsSize [0x41, 0xd800, 0xd83d, 0xde00])
        (utf8Wcstombs · [0x41, 0xd800, 0xd83d, 0xde00]) ∧
      SizeAgrees (utf8MbstowcsSize [0xe0, 0xc3, 0xa9]) (utf8Mbstowcs · [0xe0, 0xc3, 0xa9]) := by
  have both := @sizes_agree_iff [0x41, 0xd800, 0xd83d, 0xde00] [0xe0, 0xc3, 0xa9] (by decide)
  exact ⟨both.1.mpr (by decide +kernel), both.2⟩

theorem wcstombsSizeLoop_replicate {len : Nat} (n : Nat) (bounded : len < 2 ^ 32) :
    wcstombsSizeLoop len (replicate n 0x800) .success = ((len + 3 * n) % 2 ^ 32, .success) := by
  induction n generalizing len with
  | zero => rw [replicate_zero, wcstombsSizeLoop, mul_zero, add_zero, mod_eq_of_lt bounded]
  | succ n ih =>
    rw [replicate_succ, wcstombsSizeLoop]
    exact (ih (mod_lt _ (by decide))).trans (by rw [mod_add_mod, mul_succ]; congr 2; omega)

/-- The size of 1431655766 units that take three bytes each is reported as 2. -/
theorem wcstombsSize_wraps :
    utf8WcstombsSize (replicate 1431655766 0x800) = (2, .success) ∧
      utf8Wcstombs 2 (replicate 1431655766 0x800) = ([], .bufferTooSmall) ∧
      ¬SizeAgrees (utf8WcstombsSize (replicate 1431655766 0x800))
        (utf8Wcstombs · (replicate 1431655766 0x800)) := by
  have size : utf8WcstombsSize (replicate 1431655766 0x800) = (2, .success) :=
    wcstombsSizeLoop_replicate 1431655766 (by decide)
  have first : utf8Wcstombs 2 (replicate 1431655766 0x800) = ([], .bufferTooSmall) := by
    rw [utf8Wcstombs, show 1431655766 = 1431655765 + 1 from rfl, replicate_succ, wcstombsLoop]
    rfl
  refine ⟨size, first, ?_⟩
  rw [size]
  rintro ⟨out, _, agrees⟩
  cases first.symm.trans ((agrees 2 (by decide)).1 le_rfl)

end FreeWindows.Locale
