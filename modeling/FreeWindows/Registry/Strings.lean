/-
**Strings in registry files.**

`dump_strW` writes 16-bit units with escapes into a text of bytes, and `parse_strW` reads them back up
to a delimiter. What is printed for a unit depends on the next one: a shorter escape must not be
followed by another digit. One unit is read back from its escape whatever follows (`nextUnits_dumpUnit`),
so is a whole string (`parseStrW_dumpStrW`).

A C string is a list of bytes; its end, or a zero byte, stands for the terminating zero.
-/

import FreeWindows.Lib.Numerals
import FreeWindows.Registry.Names

namespace FreeWindows.Registry

open Lib List Option UInt16

/-! ### Writing -/

/-- The letters of the C escapes for the first 32 units. -/
def escapes : List UInt8 := ascii ".......abtnvfr.............e...."

/-- A unit with an ASCII code. -/
def unit (c : Char) : WChar := UInt16.ofNat c.toNat

/-- What `dump_strW` writes for one unit in front of the next one. -/
def dumpUnit (escape : UInt8 × UInt8) (str : WChar) (next : Option WChar) : List UInt8 :=
  if 127 < str then
    if next.any fun n => n < 128 ∧ isxdigit n.toUInt8 then
      ch '\\' :: ch 'x' :: padded 4 16 str.toNat
    else ch '\\' :: ch 'x' :: numeral 16 str.toNat
  else if str < 32 then
    if escapes.getD str.toNat 0 ≠ ch '.' then [ch '\\', escapes.getD str.toNat 0]
    else if next.any fun n => unit '0' ≤ n ∧ n ≤ unit '7' then ch '\\' :: padded 3 8 str.toNat
    else ch '\\' :: numeral 8 str.toNat
  else if str = unit '\\' ∨ str = escape.1.toUInt16 ∨ str = escape.2.toUInt16 then
    [ch '\\', str.toUInt8]
  else [str.toUInt8]

def dumpStrW (escape : UInt8 × UInt8) : List WChar → List UInt8
  | [] => []
  | str :: rest => dumpUnit escape str rest.head? ++ dumpStrW escape rest

/-! ### Reading -/

/-- The letters that stand for a unit after a backslash. -/
def cEscapes : List (UInt8 × WChar) :=
  [(ch 'a', 7), (ch 'b', 8), (ch 'e', 27), (ch 'f', 12), (ch 'n', 10), (ch 'r', 13), (ch 't', 9),
    (ch 'v', 11)]

/-- The character `c` after a backslash: a unit, if it starts an escape. -/
def parseEscape (c : UInt8) (p : List UInt8) : Option (WChar × List UInt8) :=
  match cEscapes.lookup c with
  | some dest => some (dest, p)
  | none =>
    if c = ch 'x' then
      if p.head?.any isxdigit then
        let (dest, p) := readDigits isxdigit 16 4 0 p
        some (UInt16.ofNat dest, p)
      else some (unit 'x', p)
    else if isodigit c then
      let (dest, p) := readDigits isodigit 8 3 0 (c :: p)
      some (UInt16.ofNat dest, p)
    else none

def utf8Length (c : UInt8) : Nat :=
  if c < 0xc2 then 0 else if c < 0xe0 then 1 else if c < 0xf0 then 2 else if c < 0xf5 then 3 else 0

def utf8Mask : List Nat := [0x7f, 0x1f, 0x0f, 0x07]

def utf8Minval : List Nat := [0x0, 0x80, 0x800, 0x10000]

/-- The bytes that follow the first one of a character, and where the reading stops. -/
def continuation : (charlen res : Nat) → List UInt8 → Option Nat × List UInt8
  | 0, res, p => (some res, p)
  | _ + 1, _, [] => (none, [])
  | charlen + 1, res, c :: p =>
    if 0x40 ≤ c ^^^ 0x80 then (none, c :: p)
    else continuation charlen (res * 64 + (c ^^^ 0x80).toNat) p

/-- A character that is no escape; invalid ones are ignored. -/
def parseChar (c : UInt8) (p : List UInt8) : List WChar × List UInt8 :=
  if c < 0x80 then ([c.toUInt16], p)
  else if utf8Length c = 0 then ([], p)
  else
    match continuation (utf8Length c) (c.toNat &&& utf8Mask.getD (utf8Length c) 0) p with
    | (none, p) => ([], p)
    | (some res, p) =>
      if res < utf8Minval.getD (utf8Length c) 0 ∨ 0x10ffff < res then ([], p)
      else if res ≤ 0xffff then ([UInt16.ofNat res], p)
      else
        let res := res - 0x10000
        ([UInt16.ofNat (0xd800 ||| (res >>> 10)), UInt16.ofNat (0xdc00 ||| (res &&& 0x3ff))], p)

/-- One round of the loop: the units that are written, and what is left. At a backslash at the end
the loop is left. -/
def nextUnits : List UInt8 → Option (List WChar × List UInt8)
  | [] => none
  | c :: p =>
    if c = ch '\\' then
      match p with
      | [] => none
      | c :: p =>
        match parseEscape c p with
        | some (dest, p) => some ([dest], p)
        | none => some (parseChar c p)
    else some (parseChar c p)

theorem readDigits_length (isDigit : UInt8 → Bool) (base atMost acc : Nat) (p : List UInt8) :
    (readDigits isDigit base atMost acc p).2.length ≤ p.length := by
  fun_induction readDigits isDigit base atMost acc p with
  | case1 => exact le_rfl
  | case2 => exact le_rfl
  | case3 atMost acc c p digit ih => exact Nat.le_succ_of_le ih
  | case4 => exact le_rfl

theorem continuation_length (charlen res : Nat) (p : List UInt8) :
    (continuation charlen res p).2.length ≤ p.length := by
  induction charlen generalizing res p with
  | zero => exact le_rfl
  | succ charlen ih =>
    cases p with
    | nil => exact le_rfl
    | cons c p =>
      rw [continuation]
      split
      · exact le_rfl
      · exact Nat.le_succ_of_le (ih _ p)

theorem parseChar_length (c : UInt8) (p : List UInt8) : (parseChar c p).2.length ≤ p.length := by
  have bound := continuation_length (utf8Length c) (c.toNat &&& utf8Mask.getD (utf8Length c) 0) p
  unfold parseChar
  split
  · exact le_rfl
  split
  · exact le_rfl
  split
  next rest stopped =>
    rw [stopped] at bound
    exact bound
  next res rest read =>
    rw [read] at bound
    split
    · exact bound
    · split <;> exact bound

variable {p rest : List UInt8}

theorem parseEscape_length {c : UInt8} {dest : WChar} (escape : parseEscape c p = some (dest, rest)) :
    rest.length ≤ p.length := by
  unfold parseEscape at escape
  split at escape
  · cases escape
    exact le_rfl
  split at escape
  · split at escape
    · cases escape
      exact readDigits_length ..
    · cases escape
      exact le_rfl
  split at escape
  next octal =>
    have bound := readDigits_length isodigit 8 2 (0 * 8 + digitValue c) p
    rw [readDigits, if_pos octal] at escape
    cases escape
    exact bound
  · cases escape

theorem nextUnits_length {units : List WChar} (next : nextUnits p = some (units, rest)) :
    rest.length < p.length := by
  unfold nextUnits at next
  split at next
  · cases next
  next c p =>
  split at next
  · split at next
    · cases next
    next c p =>
    split at next
    next dest stop escape =>
      cases next
      have := parseEscape_length escape
      simp only [length_cons]
      omega
    next =>
      have bound := parseChar_length c p
      rw [some.inj next] at bound
      exact Nat.lt_succ_of_le (Nat.le_succ_of_le bound)
  · have := parseChar_length c p
    rw [some.inj next] at this
    exact Nat.lt_succ_of_le this

/-- The loop of `parse_strW`: the units that it writes where `room` more are allowed, and where it
stops. -/
def parseLoop (endchar : UInt8) (room : Nat) (p : List UInt8) : List WChar × List UInt8 :=
  if p.head? = some endchar ∨ room = 0 then ([], p)
  else
    match _ : nextUnits p with
    | none => ([], [])
    | some (units, rest) =>
      let written := units.take room
      let (more, stop) := parseLoop endchar (room - written.length) rest
      (written ++ more, stop)
termination_by p.length
decreasing_by exact nextUnits_length ‹_›

/-- `parse_strW`, for a buffer of `capacity` units: the string with a terminating zero, and the number
of characters read. -/
def parseStrW (capacity : Nat) (src : List UInt8) (endchar : UInt8) : Option (List WChar × Nat) :=
  let text := src.takeWhile (· ≠ 0)
  let (units, stop) := parseLoop endchar capacity text
  if capacity ≤ units.length then none
  else if stop = [] then none
  else some (units ++ [0], text.length - stop.length + 1)

/-! ### Reading what was written -/

/-- The brackets of a key and the quotes of a value: the characters that are escaped, and the one that
ends the text. -/
inductive Delimiters
  | key
  | value

def Delimiters.escape : Delimiters → UInt8 × UInt8
  | .key => (ch '[', ch ']')
  | .value => (ch '"', ch '"')

def Delimiters.closing (delimiters : Delimiters) : UInt8 := delimiters.escape.2

/-- No digit follows that would be read as a part of an escape. -/
structure Follows (next : Option WChar) (p : List UInt8) : Prop where
  hex : (next.any fun n => n < 128 ∧ isxdigit n.toUInt8) = false →
    ∀ c, p.head? = some c → isxdigit c = false
  octal : (next.any fun n => unit '0' ≤ n ∧ n ≤ unit '7') = false →
    ∀ c, p.head? = some c → isodigit c = false

section RoundTrip

variable {delimiters : Delimiters} {str : WChar} {next : Option WChar} {p : List UInt8}
  {digits : List UInt8} {s : List WChar}

theorem nextUnits_hex (numeral : IsNumeral isxdigit 16 digits str.toNat) (fits : digits.length ≤ 4)
    (stops : digits.length = 4 ∨ ∀ c, p.head? = some c → isxdigit c = false) :
    nextUnits (ch '\\' :: ch 'x' :: (digits ++ p)) = some ([str], p) := by
  have first : (digits ++ p).head?.any isxdigit = true := by
    cases digits with
    | nil => exact absurd rfl numeral.nonempty
    | cons c rest => exact numeral.digits c mem_cons_self
  have lookup : cEscapes.lookup (ch 'x') = none := by decide
  have escape : parseEscape (ch 'x') (digits ++ p) = some (str, p) := by
    rw [parseEscape, lookup]
    dsimp only
    rw [if_pos rfl, if_pos first, readDigits_numeral numeral fits stops]
    rw [UInt16.ofNat_toNat]
  rw [nextUnits, if_pos rfl, escape]

theorem lookup_isodigit : ∀ c, isodigit c = true → cEscapes.lookup c = none ∧ c ≠ ch 'x' :=
  forall_byte (by decide +kernel)

theorem nextUnits_octal (numeral : IsNumeral isodigit 8 digits str.toNat) (fits : digits.length ≤ 3)
    (stops : digits.length = 3 ∨ ∀ c, p.head? = some c → isodigit c = false) :
    nextUnits (ch '\\' :: (digits ++ p)) = some ([str], p) := by
  have read := readDigits_numeral numeral fits stops
  cases digits with
  | nil => exact absurd rfl numeral.nonempty
  | cons c rest =>
    have octal := numeral.digits c mem_cons_self
    obtain ⟨lookup, notX⟩ := lookup_isodigit c octal
    have escape : parseEscape c (rest ++ p) = some (str, p) := by
      rw [parseEscape, lookup]
      dsimp only
      rw [if_neg notX, if_pos octal, ← cons_append, read]
      rw [UInt16.ofNat_toNat]
    rw [cons_append, nextUnits, if_pos rfl, escape]

/-- The letters of the C escapes are read back. -/
theorem lookup_escapes : ∀ n, n < 32 → escapes.getD n 0 ≠ ch '.' →
    cEscapes.lookup (escapes.getD n 0) = some (ofNat n) := by decide

theorem nextUnits_letter (low : str < 32) (letter : escapes.getD str.toNat 0 ≠ ch '.') :
    nextUnits (ch '\\' :: escapes.getD str.toNat 0 :: p) = some ([str], p) := by
  have lookup := lookup_escapes str.toNat (lt_iff_toNat_lt.mp low) letter
  have escape : parseEscape (escapes.getD str.toNat 0) p = some (str, p) := by
    rw [parseEscape, lookup, UInt16.ofNat_toNat]
  rw [nextUnits, if_pos rfl, escape]

theorem toNat_ascii (ascii : ¬127 < str) : str.toNat < 128 :=
  Nat.lt_succ_of_le (not_lt.mp (lt_iff_toNat_lt.not.mp ascii))

theorem toNat_toUInt8 (ascii : ¬127 < str) : str.toUInt8.toNat = str.toNat := by
  exact Nat.mod_eq_of_lt (lt_trans (toNat_ascii ascii) (by decide))

theorem toUInt16_toUInt8 (ascii : ¬127 < str) : str.toUInt8.toUInt16 = str := by
  rw [← UInt16.toNat_inj, UInt8.toNat_toUInt16, toNat_toUInt8 ascii]

theorem parseChar_plain (ascii : ¬127 < str) (p : List UInt8) :
    parseChar str.toUInt8 p = ([str], p) := by
  have byte : str.toUInt8 < 0x80 := by
    rw [UInt8.lt_iff_toNat_lt, toNat_toUInt8 ascii]
    exact toNat_ascii ascii
  rw [parseChar, if_pos byte, toUInt16_toUInt8 ascii]

/-- **One unit is read back.** -/
theorem nextUnits_dumpUnit (follows : Follows next p) :
    nextUnits (dumpUnit delimiters.escape str next ++ p) = some ([str], p) := by
  have hex := numeral_isNumeral isxdigit_digitChar str.toNat
  have octal := numeral_isNumeral isodigit_digitChar str.toNat
  unfold dumpUnit
  split
  · have fits : (numeral 16 str.toNat).length ≤ 4 :=
      length_numeral str.toNat_lt
    split
    · have full := length_padded fits
      exact nextUnits_hex (hex.padded rfl _) full.le (.inl full)
    next other =>
      exact nextUnits_hex hex fits (.inr (follows.hex (Bool.eq_false_iff.mpr other)))
  next ascii =>
  split
  next low =>
    have small : str.toNat < 32 := lt_iff_toNat_lt.mp low
    have fits : (numeral 8 str.toNat).length ≤ 3 :=
      length_numeral (by omega)
    split
    next letter => exact nextUnits_letter low letter
    split
    · have full := length_padded fits
      exact nextUnits_octal (octal.padded rfl _) full.le (.inl full)
    next other =>
      exact nextUnits_octal octal fits (.inr (follows.octal (Bool.eq_false_iff.mpr other)))
  split
  next special =>
    have escape : parseEscape str.toUInt8 p = none := by
      cases delimiters <;> rcases special with rfl | rfl | rfl <;> rfl
    show nextUnits (ch '\\' :: str.toUInt8 :: p) = some ([str], p)
    rw [nextUnits, if_pos rfl, escape, parseChar_plain ascii]
  next plain =>
    have other : str.toUInt8 ≠ ch '\\' := fun same =>
      plain (.inl (by rw [← toUInt16_toUInt8 ascii, same]; rfl))
    show nextUnits (str.toUInt8 :: p) = some ([str], p)
    unfold nextUnits
    dsimp only
    rw [if_neg other, parseChar_plain ascii]

/-- A unit is written with a backslash, or as it is. -/
theorem dumpUnit_head (escape : UInt8 × UInt8) (str : WChar) (next : Option WChar) :
    (∃ more, dumpUnit escape str next = ch '\\' :: more) ∨
      dumpUnit escape str next = [str.toUInt8] ∧ ¬127 < str ∧ str ≠ escape.2.toUInt16 := by
  unfold dumpUnit
  split
  · split <;> exact .inl ⟨_, rfl⟩
  next ascii =>
  split
  · split
    · exact .inl ⟨_, rfl⟩
    · split <;> exact .inl ⟨_, rfl⟩
  split
  · exact .inl ⟨_, rfl⟩
  next plain => exact .inr ⟨rfl, ascii, fun same => plain (.inr (.inr same))⟩

theorem isodigit_toUInt8 (ascii : ¬127 < str) :
    isodigit str.toUInt8 = decide (unit '0' ≤ str ∧ str ≤ unit '7') := by
  have zero : (ch '0').toNat = (unit '0').toNat := rfl
  have seven : (ch '7').toNat = (unit '7').toNat := rfl
  simp only [isodigit, UInt8.le_iff_toNat_le, le_iff_toNat_le, toNat_toUInt8 ascii, zero, seven]

/-- What follows a unit is the next one, or the delimiter. -/
theorem follows_dump (delimiters : Delimiters) (s : List WChar) (tail : List UInt8) :
    Follows s.head? (dumpStrW delimiters.escape s ++ delimiters.closing :: tail) := by
  cases s with
  | nil => cases delimiters <;> refine ⟨?_, ?_⟩ <;> rintro - c ⟨⟩ <;> rfl
  | cons str rest =>
    rw [dumpStrW]
    rcases dumpUnit_head delimiters.escape str rest.head? with ⟨more, form⟩ | ⟨form, ascii, -⟩
    · rw [form]
      refine ⟨?_, ?_⟩ <;> rintro - c ⟨⟩ <;> rfl
    · rw [form]
      refine ⟨?_, ?_⟩
      · rintro other c ⟨⟩
        have low : str < 128 := lt_iff_toNat_lt.mpr (toNat_ascii ascii)
        simpa [low] using other
      · rintro other c ⟨⟩
        rw [isodigit_toUInt8 ascii]
        exact other

theorem isxdigit_printable : ∀ c, isxdigit c = true → 32 ≤ c :=
  forall_byte (by decide +kernel)

theorem isodigit_printable : ∀ c, isodigit c = true → 32 ≤ c :=
  forall_byte (by decide +kernel)

theorem escapes_printable : ∀ n, n < 32 → 32 ≤ escapes.getD n 0 := by decide

theorem dumpUnit_printable (escape : UInt8 × UInt8) (str : WChar) (next : Option WChar) :
    ∀ c ∈ dumpUnit escape str next, 32 ≤ c := by
  have hex := numeral_isNumeral isxdigit_digitChar str.toNat
  have octal := numeral_isNumeral isodigit_digitChar str.toNat
  have backslash : 32 ≤ ch '\\' := by decide
  have letterX : 32 ≤ ch 'x' := by decide
  unfold dumpUnit
  split
  · split
    · exact forall_mem_cons.mpr ⟨backslash, forall_mem_cons.mpr ⟨letterX,
        fun c member => isxdigit_printable c ((hex.padded rfl _).digits c member)⟩⟩
    · exact forall_mem_cons.mpr ⟨backslash, forall_mem_cons.mpr ⟨letterX,
        fun c member => isxdigit_printable c (hex.digits c member)⟩⟩
  next ascii =>
  split
  next low =>
    split
    · simp only [forall_mem_cons]
      exact ⟨backslash, escapes_printable _ (lt_iff_toNat_lt.mp low), nofun⟩
    split
    · exact forall_mem_cons.mpr ⟨backslash, fun c member =>
        isodigit_printable c ((octal.padded rfl _).digits c member)⟩
    · exact forall_mem_cons.mpr ⟨backslash, fun c member =>
        isodigit_printable c (octal.digits c member)⟩
  next high =>
  have printable : 32 ≤ str.toUInt8 := by
    rw [UInt8.le_iff_toNat_le, toNat_toUInt8 ascii]
    exact not_lt.mp (lt_iff_toNat_lt.not.mp high)
  split
  · simp [backslash, printable]
  · simp [printable]

theorem dumpStrW_printable (escape : UInt8 × UInt8) (s : List WChar) :
    ∀ c ∈ dumpStrW escape s, 32 ≤ c := by
  induction s with
  | nil => nofun
  | cons str rest ih =>
    intro c member
    rcases mem_append.mp member with first | later
    · exact dumpUnit_printable escape str rest.head? c first
    · exact ih c later

/-- **The loop reads a dumped string** up to the delimiter. -/
theorem parseLoop_dump (delimiters : Delimiters) (tail : List UInt8) {room : Nat}
    (fits : s.length ≤ room) :
    parseLoop delimiters.closing room (dumpStrW delimiters.escape s ++ delimiters.closing :: tail) =
      (s, delimiters.closing :: tail) := by
  induction s generalizing room with
  | nil =>
    rw [parseLoop, if_pos (.inl rfl)]
    rfl
  | cons str rest ih =>
    rw [length_cons] at fits
    have read := @nextUnits_dumpUnit delimiters str _ _ (follows_dump delimiters rest tail)
    have goes : ¬((dumpUnit delimiters.escape str rest.head? ++
        (dumpStrW delimiters.escape rest ++ delimiters.closing :: tail)).head? =
          some delimiters.closing ∨ room = 0) := by
      refine not_or.mpr ⟨?_, by omega⟩
      rcases dumpUnit_head delimiters.escape str rest.head? with ⟨more, form⟩ | ⟨form, ascii, other⟩
      · rw [form]
        cases delimiters <;> nofun
      · rw [form]
        intro closing
        rw [← toUInt16_toUInt8 ascii, some.inj closing] at other
        exact other rfl
    have one : [str].take room = [str] := take_of_length_le (by simp; omega)
    rw [dumpStrW, append_assoc, parseLoop, if_neg goes]
    split
    next stuck => exact absurd (stuck.symm.trans read) nofun
    next units p step =>
      cases step.symm.trans read
      dsimp only
      rw [one, ih (by simp; omega)]
      rfl

theorem parseStrW_dump (delimiters : Delimiters) (tail : List UInt8) {capacity : Nat}
    (fits : s.length < capacity) :
    parseStrW capacity (dumpStrW delimiters.escape s ++ delimiters.closing :: tail)
      delimiters.closing = some (s ++ [0], (dumpStrW delimiters.escape s).length + 1) := by
  have nonzero : ∀ c ∈ dumpStrW delimiters.escape s, decide (c ≠ 0) = true := by
    rintro c member
    rw [decide_eq_true_eq]
    rintro rfl
    exact absurd (dumpStrW_printable _ s 0 member) (by decide)
  have ends : (delimiters.closing :: tail).takeWhile (· ≠ 0) = delimiters.closing :: tail.takeWhile (· ≠ 0) := by
    cases delimiters <;> rfl
  unfold parseStrW
  rw [takeWhile_append_of_pos nonzero, ends]
  dsimp only
  rw [parseLoop_dump delimiters _ fits.le]
  rw [if_neg (not_le.mpr fits), if_neg (cons_ne_nil _ _), length_append, Nat.add_sub_cancel]

theorem length_le_dumpStrW (escape : UInt8 × UInt8) (s : List WChar) :
    s.length ≤ (dumpStrW escape s).length := by
  induction s with
  | nil => exact le_rfl
  | cons str rest ih =>
    have one : 1 ≤ (dumpUnit escape str rest.head?).length := by
      rcases dumpUnit_head escape str rest.head? with ⟨more, form⟩ | ⟨form, -⟩ <;> rw [form] <;>
        simp
    rw [dumpStrW, length_append, length_cons]
    omega

end RoundTrip

/-- **Dumped strings are read back.** Whatever the units are, `parse_strW` returns them with a
terminating zero, and it reads the text and the delimiter behind it. -/
theorem parseStrW_dumpStrW (delimiters : Delimiters) (s : List WChar) (tail : List UInt8)
    (capacity : Nat) (fits : s.length < capacity) :
    parseStrW capacity (dumpStrW delimiters.escape s ++ delimiters.closing :: tail)
      delimiters.closing = some (s ++ [0], (dumpStrW delimiters.escape s).length + 1) :=
  parseStrW_dump delimiters tail fits

theorem parseStrW_dumpStrW_controls :
    [0, unit '7', 0xd800, unit 'a', unit '"', 10].length < 7 ∧
      parseStrW 7 (dumpStrW (ch '"', ch '"') [0, unit '7', 0xd800, unit 'a', unit '"', 10] ++
        [ch '"', ch '=']) (ch '"') = some ([0, unit '7', 0xd800, unit 'a', unit '"', 10, 0], 17) :=
  ⟨by decide, parseStrW_dumpStrW .value [0, unit '7', 0xd800, unit 'a', unit '"', 10] [ch '='] 7
    (by decide)⟩

end FreeWindows.Registry
