/-
**Numerals in C text.**

Text is a list of bytes. `numeral` is what `printf` prints for an unsigned number in a base up to 16,
`padded` fills it up with zeros, and `readDigits` is the loop that reads digits back, as long as there
are some and at most a given number of them.

* `readDigits_numeral`: a numeral is read back, if no further digit follows or all places are taken;
* `strtoul_numeral`: so it is by `strtoul`, for base 16.
-/

import Mathlib

namespace FreeWindows.Lib

open List

/-- The byte of an ASCII character. -/
def ch (c : Char) : UInt8 := UInt8.ofNat c.toNat

/-- The bytes of an ASCII string. -/
def ascii (text : String) : List UInt8 := text.toList.map ch

/-- Facts about all bytes can be decided one by one. -/
theorem forall_byte {p : UInt8 → Prop} (every : ∀ n, n < 256 → p (UInt8.ofNat n)) (c : UInt8) :
    p c := by
  have here := every c.toNat c.toNat_lt
  rwa [UInt8.ofNat_toNat] at here

/-! ### Digits -/

def digitChar (d : Nat) : UInt8 := UInt8.ofNat (if d < 10 then 48 + d else 87 + d)

def isxdigit (c : UInt8) : Bool :=
  (ch '0' ≤ c ∧ c ≤ ch '9') ∨ (ch 'a' ≤ c ∧ c ≤ ch 'f') ∨ (ch 'A' ≤ c ∧ c ≤ ch 'F')

/-- A digit of the base 8. -/
def isodigit (c : UInt8) : Bool := ch '0' ≤ c ∧ c ≤ ch '7'

/-- `isspace`, in the C locale. -/
def isspace (c : UInt8) : Bool := c = ch ' ' ∨ (9 ≤ c ∧ c ≤ 13)

def digitValue (c : UInt8) : Nat :=
  if ch '0' ≤ c ∧ c ≤ ch '9' then c.toNat - 48
  else if ch 'A' ≤ c ∧ c ≤ ch 'Z' then c.toNat - 65 + 10
  else c.toNat - 97 + 10

theorem digitValue_digitChar : ∀ d, d < 16 → digitValue (digitChar d) = d := by decide

theorem isxdigit_digitChar : ∀ d, d < 16 → isxdigit (digitChar d) = true := by decide

theorem isodigit_digitChar : ∀ d, d < 8 → isodigit (digitChar d) = true := by decide

/-! ### Printing -/

/-- `%x` and `%o`: the digits of a number, the highest one first. -/
def numeral (base n : Nat) : List UInt8 :=
  if n = 0 then [digitChar 0] else (Nat.digits base n).reverse.map digitChar

/-- A numeral with at least `width` places. -/
def padded (width base n : Nat) : List UInt8 :=
  List.replicate (width - (numeral base n).length) (digitChar 0) ++ numeral base n

/-- The loop that reads digits. -/
def readDigits (isDigit : UInt8 → Bool) (base : Nat) :
    (atMost acc : Nat) → List UInt8 → Nat × List UInt8
  | 0, acc, text => (acc, text)
  | _ + 1, acc, [] => (acc, [])
  | atMost + 1, acc, c :: text =>
    if isDigit c then readDigits isDigit base atMost (acc * base + digitValue c) text
    else (acc, c :: text)

/-- A sign, for `strtoul`. -/
def readSign : List UInt8 → Bool × List UInt8
  | [] => (false, [])
  | c :: text =>
    if c = ch '-' then (true, text) else if c = ch '+' then (false, text) else (false, c :: text)

/-- `0x`, if a digit follows. -/
def skipZeroX : List UInt8 → List UInt8
  | zero :: x :: c :: text =>
    if zero = ch '0' ∧ (x = ch 'x' ∨ x = ch 'X') ∧ isxdigit c then c :: text
    else zero :: x :: c :: text
  | text => text

/-- `strtoul` with base 16, for 64 bits: the number and the text behind it. -/
def strtoul (p : List UInt8) : Nat × List UInt8 :=
  let (negative, text) := readSign (p.dropWhile isspace)
  let text := skipZeroX text
  if text.head?.any isxdigit then
    let (n, rest) := readDigits isxdigit 16 text.length 0 text
    (if 2 ^ 64 ≤ n then 2 ^ 64 - 1 else if negative then (2 ^ 64 - n) % 2 ^ 64 else n, rest)
  else (0, p)

/-- The text is a nonempty sequence of digits with the value `n`. -/
structure IsNumeral (isDigit : UInt8 → Bool) (base : Nat) (text : List UInt8) (n : Nat) : Prop where
  digits : ∀ c ∈ text, isDigit c = true
  value : text.foldl (fun acc c => acc * base + digitValue c) 0 = n
  nonempty : text ≠ []

section Numerals

variable {base n width : Nat} {isDigit : UInt8 → Bool} {text rest : List UInt8}

theorem foldl_digitChar (small : base ≤ 16) {digits : List Nat} (valid : ∀ d ∈ digits, d < base)
    (acc : Nat) :
    (digits.map digitChar).foldl (fun acc c => acc * base + digitValue c) acc =
      digits.foldl (fun acc d => acc * base + d) acc := by
  induction digits generalizing acc with
  | nil => rfl
  | cons d rest ih =>
    have value := digitValue_digitChar d (lt_of_lt_of_le (valid d mem_cons_self) small)
    rw [map_cons, foldl_cons, foldl_cons, value]
    exact ih (fun d member => valid d (mem_cons_of_mem _ member)) _

/-- **A printed number** is a numeral. -/
theorem numeral_isNumeral (valid : ∀ d, d < base → isDigit (digitChar d) = true) (n : Nat)
    (isBase : 2 ≤ base := by omega) (small : base ≤ 16 := by omega) :
    IsNumeral isDigit base (numeral base n) n := by
  unfold numeral
  split
  next zero =>
    refine ⟨fun c member => ?_, ?_, by simp⟩
    · rw [mem_singleton.mp member]
      exact valid 0 (by omega)
    · rw [zero]
      simp [digitValue_digitChar 0 (by omega)]
  next positive =>
    have bound : ∀ d ∈ (Nat.digits base n).reverse, d < base := fun d member =>
      Nat.digits_lt_base isBase (mem_reverse.mp member)
    refine ⟨fun c member => ?_, ?_, ?_⟩
    · obtain ⟨d, inDigits, rfl⟩ := mem_map.mp member
      exact valid d (bound d inDigits)
    · rw [foldl_digitChar small bound, foldl_reverse]
      have value := Nat.ofDigits_digits base n
      rw [Nat.ofDigits_eq_foldr] at value
      simpa [Nat.mul_comm, Nat.add_comm] using value
    · simpa [Nat.digits_eq_nil_iff_eq_zero] using positive

theorem length_numeral (fits : n < base ^ width) (isBase : 2 ≤ base := by omega)
    (positive : 0 < width := by omega) : (numeral base n).length ≤ width := by
  unfold numeral
  split
  · exact positive
  · rw [length_map, length_reverse]
    exact (Nat.digits_length_le_iff isBase n).mpr fits

theorem IsNumeral.padded (numeral : IsNumeral isDigit base text n) (zero : isDigit (digitChar 0) = true)
    (count : Nat) : IsNumeral isDigit base (List.replicate count (digitChar 0) ++ text) n := by
  refine ⟨fun c member => ?_, ?_, fun empty => ?_⟩
  · rcases mem_append.mp member with front | inText
    · rw [(mem_replicate.mp front).2]
      exact zero
    · exact numeral.digits c inText
  · have none : (replicate count (digitChar 0)).foldl
        (fun acc c => acc * base + digitValue c) 0 = 0 := by
      induction count with
      | zero => rfl
      | succ count ih =>
        rw [replicate_succ, foldl_cons, digitValue_digitChar 0 (by omega), Nat.zero_mul]
        exact ih
    rw [foldl_append, none]
    exact numeral.value
  · exact numeral.nonempty (append_eq_nil_iff.mp empty).2

theorem length_padded (fits : (numeral base n).length ≤ width) :
    (Lib.padded width base n).length = width := by
  rw [Lib.padded, length_append, length_replicate, Nat.sub_add_cancel fits]

theorem readDigits_of_digits (digits : ∀ c ∈ text, isDigit c = true) {atMost : Nat}
    (fits : text.length ≤ atMost)
    (stops : text.length = atMost ∨ ∀ c, rest.head? = some c → isDigit c = false) (acc : Nat) :
    readDigits isDigit base atMost acc (text ++ rest) =
      (text.foldl (fun acc c => acc * base + digitValue c) acc, rest) := by
  induction text generalizing atMost acc with
  | nil =>
    cases atMost with
    | zero => rfl
    | succ atMost =>
      cases rest with
      | nil => rfl
      | cons c rest =>
        have no : isDigit c = false := (stops.resolve_left nofun) c rfl
        rw [nil_append, readDigits, no]
        rfl
  | cons c text ih =>
    cases atMost with
    | zero => exact absurd fits (by simp)
    | succ atMost =>
      rw [cons_append, readDigits, if_pos (digits c mem_cons_self), foldl_cons]
      refine ih (fun c member => digits c (mem_cons_of_mem _ member)) ?_ ?_ _
      · exact Nat.le_of_succ_le_succ fits
      · exact stops.imp_left Nat.succ.inj

/-- **A numeral is read back**, up to the end of its digits or of the places. -/
theorem readDigits_numeral (numeral : IsNumeral isDigit base text n) {atMost : Nat}
    (fits : text.length ≤ atMost)
    (stops : text.length = atMost ∨ ∀ c, rest.head? = some c → isDigit c = false) :
    readDigits isDigit base atMost 0 (text ++ rest) = (n, rest) := by
  rw [readDigits_of_digits numeral.digits fits stops, numeral.value]

theorem isxdigit_start : ∀ c, isxdigit c = true →
    isspace c = false ∧ c ≠ ch '-' ∧ c ≠ ch '+' ∧ c ≠ ch 'x' ∧ c ≠ ch 'X' :=
  forall_byte (by decide +kernel)

theorem skipZeroX_of_ne {c : UInt8} (second : ∀ x, text.head? = some x → x ≠ ch 'x' ∧ x ≠ ch 'X') :
    skipZeroX (c :: text) = c :: text := by
  unfold skipZeroX
  split
  next zero x d tail same =>
    cases same
    have other := second x rfl
    rw [if_neg fun digits => digits.2.1.elim other.1 other.2]
  · rfl

/-- **A numeral is read by `strtoul`.** -/
theorem strtoul_numeral (numeral : IsNumeral isxdigit 16 text n) (fits : n < 2 ^ 64)
    (stops : ∀ c, rest.head? = some c → isxdigit c = false ∧ c ≠ ch 'x' ∧ c ≠ ch 'X') :
    strtoul (text ++ rest) = (n, rest) := by
  have stopped : ∀ c, rest.head? = some c → isxdigit c = false := fun c first => (stops c first).1
  have read : readDigits isxdigit 16 (text.length + rest.length) 0 (text ++ rest) = (n, rest) :=
    readDigits_numeral numeral (Nat.le_add_right _ _) (.inr stopped)
  cases text with
  | nil => exact absurd rfl numeral.nonempty
  | cons c text =>
    have digit := numeral.digits c mem_cons_self
    obtain ⟨solid, minus, plus, -⟩ := isxdigit_start c digit
    have second : ∀ x, (text ++ rest).head? = some x → x ≠ ch 'x' ∧ x ≠ ch 'X' := by
      intro x first
      cases text with
      | nil => exact (stops x first).2
      | cons d text =>
        cases first
        exact (isxdigit_start x (numeral.digits x (by simp))).2.2.2
    have sign : readSign (c :: (text ++ rest)) = (false, c :: (text ++ rest)) := by
      rw [readSign, if_neg minus, if_neg plus]
    have skipped := skipZeroX_of_ne (c := c) second
    have starts : (c :: (text ++ rest)).head?.any isxdigit = true := digit
    rw [cons_append, strtoul, dropWhile_cons_of_neg (by rw [solid]; decide), sign]
    dsimp only
    rw [skipped, if_pos starts, ← cons_append, length_append, read]
    rw [if_neg (by omega), if_neg (by decide)]

end Numerals

end FreeWindows.Lib
