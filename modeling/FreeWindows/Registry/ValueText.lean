/-
**Values in registry files.**

`dump_value` prints a value as a string, as a number or as bytes, the last in lines of limited length;
`load_value` reads it from the line in the buffer and from those that follow. A file is what has not
been read of it, and memory is always available. What is read of a line is

* the name (`parseValueName_dump`),
* the type, from the tag (`getDataType_hex` and the table itself),
* the data (`prints_string`, `prints_dword`, `loadHex_dumpBytes`).

Together they give back the value, from exactly the lines that were printed (`loadValue_dumpValue`).
-/

import FreeWindows.Registry.Values

namespace FreeWindows.Registry

open Lib List

/-! ### Reading -/

/-- `struct file_load_info`: the length of the buffer for the strings, and the rest of the file. -/
structure LoadInfo where
  tmplen : Nat
  file : List UInt8
deriving DecidableEq, Repr

def LoadInfo.getFileTmpSpace (info : LoadInfo) (size : Nat) : LoadInfo :=
  { info with tmplen := max info.tmplen size }

/-- `read_next_line`: the line without its end, and the rest of the file. -/
def readNextLine (file : List UInt8) : Option (List UInt8 × List UInt8) :=
  match file with
  | [] => none
  | file =>
    let line := file.takeWhile (· ≠ ch '\n')
    match file.dropWhile (· ≠ ch '\n') with
    | [] => some (line, [])
    | _ :: rest => some (if line.getLast? = some (ch '\r') then line.dropLast else line, rest)

variable {file line rest p data bytes : List UInt8} {tmplen : Nat}

theorem readNextLine_length (read : readNextLine file = some (line, rest)) :
    rest.length < file.length := by
  unfold readNextLine at read
  split at read
  · cases read
  next nonempty =>
    have bound := (dropWhile_suffix (p := (· ≠ ch '\n')) (l := file)).length_le
    split at read
    · cases read
      exact length_pos_iff.mpr nonempty
    next c more stop =>
      cases read
      rw [stop] at bound
      exact bound

/-- The name of a value, and what follows it. -/
def parseName (tmplen : Nat) (buffer : List UInt8) : Option (Name × List UInt8) :=
  if buffer.head? = some (ch '@') then some ([], buffer.drop 1)
  else
    match parseStrW (tmplen / 2) (buffer.drop 1) (ch '"') with
    | none => none
    | some (units, r) => some (units.dropLast, buffer.drop (r + 1))

/-- An equals sign with blanks around it. -/
def skipEquals (p : List UInt8) : Option (List UInt8) :=
  match p.dropWhile isspace with
  | [] => none
  | c :: p => if c = ch '=' then some (p.dropWhile isspace) else none

/-- `parse_value_name` up to the search for the value: the name, and what follows the equals sign. -/
def parseValueName (tmplen : Nat) (buffer : List UInt8) : Option (Name × List UInt8) :=
  match parseName tmplen buffer with
  | none => none
  | some (name, p) => (skipEquals p).map (name, ·)

/-- How the data of a value are written. -/
inductive ParseType
  | string
  | binary
  | dword
deriving DecidableEq, Repr

/-- `data_types`: tags, types, and how the data are parsed. -/
def dataTypes : List (List UInt8 × Option UInt32 × ParseType) :=
  [(ascii "\"", some regSz, .string), (ascii "str:\"", some regSz, .string),
    (ascii "str(2):\"", some regExpandSz, .string), (ascii "str(7):\"", some regMultiSz, .string),
    (ascii "hex:", some regBinary, .binary), (ascii "dword:", some regDword, .dword),
    (ascii "hex(", none, .binary)]

def getDataType (buffer : List UInt8) : Option (UInt32 × ParseType × List UInt8) :=
  match dataTypes.find? fun (tag, _) => tag.isPrefixOf buffer with
  | none => none
  | some (tag, some type, parseType) => some (type, parseType, buffer.drop tag.length)
  | some (_, none, parseType) =>
    let (type, stop) := strtoul (buffer.drop 4)
    if (ascii "):").isPrefixOf stop then some (UInt32.ofNat type, parseType, stop.drop 2) else none

/-- The blanks around a comma. -/
def skipComma (p : List UInt8) : List UInt8 :=
  let p := p.dropWhile isspace
  (if p.head? = some (ch ',') then p.drop 1 else p).dropWhile isspace

/-- `parse_hex`, into a buffer of `len` bytes: the bytes, and what follows them. -/
def parseHex : (len : Nat) → List UInt8 → Option (List UInt8 × List UInt8)
  | len, p =>
    if p.head?.any isxdigit then
      let (val, stop) := strtoul p
      if stop = p ∨ val % 2 ^ 32 > 0xff then none
      else
        match len with
        | 0 => none
        | len + 1 => (parseHex len (skipComma stop)).map fun (bytes, rest) =>
          (UInt8.ofNat val :: bytes, rest)
    else some ([], p)

/-- The lines of a value that is written as bytes, `len` of which have been read. -/
def loadHex (len : Nat) (buffer : List UInt8) (info : LoadInfo) : Option (List UInt8) × LoadInfo :=
  let maxlen := 1 + buffer.length / 2
  let info := info.getFileTmpSpace (len + maxlen)
  match parseHex maxlen buffer with
  | none => (none, info)
  | some (bytes, rest) =>
    match rest.dropWhile isspace with
    | [] => (some bytes, info)
    | c :: _ =>
      if c ≠ ch '\\' then (none, info)
      else
        match _ : readNextLine info.file with
        | none => (none, info)
        | some (line, file) =>
          let (more, info) := loadHex (len + bytes.length) (line.dropWhile isspace) { info with file }
          (more.map (bytes ++ ·), info)
termination_by info.file.length
decreasing_by exact readNextLine_length ‹_›

/-- The type and the data of a value. -/
def loadData (buffer : List UInt8) (info : LoadInfo) : Option (UInt32 × List UInt8) × LoadInfo :=
  match getDataType buffer with
  | none => (none, info)
  | some (type, .string, buffer) =>
    let info := info.getFileTmpSpace (2 * buffer.length)
    ((parseStrW (info.tmplen / 2) buffer (ch '"')).map fun (units, _) => (type, bytesOfUnits units),
      info)
  | some (type, .dword, buffer) => (some (type, bytesOfDword (strtoul buffer).1), info)
  | some (type, .binary, buffer) =>
    let (data, info) := loadHex 0 buffer info
    (data.map (type, ·), info)

/-- No value of the name can be found or inserted. -/
def Heap.refuses (heap : Heap) (k : Nat) (name : Name) : Bool :=
  match heap.findValue k name with
  | .found _ => false
  | .gap _ => name.length > maxValueLen

/-- `load_value`. Without data the value is there all the same. -/
def Heap.loadValue (heap : Heap) (k : Nat) (buffer : List UInt8) (info : LoadInfo) :
    Heap × LoadInfo × Bool :=
  let info := info.getFileTmpSpace (2 * buffer.length)
  match parseValueName info.tmplen buffer with
  | none => (heap, info, false)
  | some (name, buffer) =>
    if heap.refuses k name then (heap, info, false)
    else
      match loadData buffer info with
      | (none, info) => ((heap.storeValue k name regNone []).1, info, false)
      | (some (type, data), info) => ((heap.storeValue k name type data).1, info, true)

/-! ### Lines -/

/-- A line of printable characters is read up to its end. -/
theorem readNextLine_line (rest : List UInt8) (printable : ∀ c ∈ line, 32 ≤ c) :
    readNextLine (line ++ ch '\n' :: rest) = some (line, rest) := by
  have inside : ∀ c ∈ line, decide (c ≠ ch '\n') = true := by
    intro c member
    rw [decide_eq_true_eq]
    rintro rfl
    exact absurd (printable _ member) (by decide)
  have before : (line ++ ch '\n' :: rest).takeWhile (· ≠ ch '\n') = line := by
    rw [takeWhile_append_of_pos inside, takeWhile_cons_of_neg (by decide), append_nil]
  have behind : (line ++ ch '\n' :: rest).dropWhile (· ≠ ch '\n') = ch '\n' :: rest := by
    rw [dropWhile_append_of_pos inside, dropWhile_cons_of_neg (by decide)]
  have noReturn : line.getLast? ≠ some (ch '\r') := fun last =>
    absurd (printable _ (mem_of_getLast? last)) (by decide)
  unfold readNextLine
  split
  next empty => exact absurd empty (by simp)
  next =>
    dsimp only
    rw [before, behind]
    rw [if_neg noReturn]

theorem dropWhile_isspace (solid : ∀ c, p.head? = some c → isspace c = false) :
    p.dropWhile isspace = p := by
  cases p with
  | nil => rfl
  | cons c p => exact dropWhile_cons_of_neg (by rw [solid c rfl]; decide)

/-! ### The name -/

theorem dumpName_printable (name : Name) : ∀ c ∈ dumpName name, 32 ≤ c := by
  have closing : ∀ c ∈ ascii "\"=", 32 ≤ c := by decide +kernel
  unfold dumpName
  split
  · decide +kernel
  · refine forall_mem_cons.mpr ⟨by decide, fun c member => ?_⟩
    rcases mem_append.mp member with inName | behind
    · exact dumpStrW_printable _ name c inName
    · exact closing c behind

theorem skipEquals_cons (solid : ∀ c, p.head? = some c → isspace c = false) :
    skipEquals (ch '=' :: p) = some p := by
  have first : (ch '=' :: p).dropWhile isspace = ch '=' :: p := rfl
  rw [skipEquals, first]
  dsimp only
  rw [if_pos rfl, dropWhile_isspace solid]

theorem parseName_dump (name : Name) (room : 2 * (dumpName name ++ p).length ≤ tmplen) :
    parseName tmplen (dumpName name ++ p) = some (name, ch '=' :: p) := by
  unfold dumpName at room ⊢
  split
  next empty =>
    rw [empty]
    rfl
  next named =>
    rw [if_neg named] at room
    have length := length_le_dumpStrW (ch '"', ch '"') name
    have fits : name.length < tmplen / 2 := by
      simp only [length_append, length_cons] at room
      omega
    have parsed : parseStrW (tmplen / 2)
        (dumpStrW (ch '"', ch '"') name ++ ch '"' :: ch '=' :: p) (ch '"') = _ :=
      parseStrW_dump .value (ch '=' :: p) fits
    have text : ch '"' :: (dumpStrW (ch '"', ch '"') name ++ ascii "\"=") ++ p =
        ch '"' :: (dumpStrW (ch '"', ch '"') name ++ ch '"' :: ch '=' :: p) := by
      rw [cons_append, append_assoc]
      rfl
    have other : ¬(some (ch '"') = some (ch '@')) := by decide
    rw [text, parseName, head?_cons, if_neg other, drop_one, tail_cons, parsed]
    simp [drop_append, Delimiters.escape]

/-- **The name is read back.** -/
theorem parseValueName_dump (name : Name) (room : 2 * (dumpName name ++ p).length ≤ tmplen)
    (solid : ∀ c, p.head? = some c → isspace c = false) :
    parseValueName tmplen (dumpName name ++ p) = some (name, p) := by
  rw [parseValueName, parseName_dump name room]
  dsimp only
  rw [skipEquals_cons solid]
  rfl

/-! ### Strings and numbers -/

theorem unit_toNat (low high : UInt8) :
    (low.toUInt16 ||| (high.toUInt16 <<< 8)).toNat = low.toNat + 256 * high.toNat := by
  have lowBound := low.toNat_lt
  have highBound := high.toNat_lt
  have shifted : (high.toUInt16 <<< 8).toNat = high.toNat <<< 8 := by
    show high.toNat <<< 8 % 2 ^ 16 = _
    omega
  rw [UInt16.toNat_or, shifted, UInt8.toNat_toUInt16, Nat.or_comm,
    ← Nat.shiftLeft_add_eq_or_of_lt lowBound, Nat.shiftLeft_eq]
  omega

theorem unit_bytes (low high : UInt8) :
    UInt8.ofNat (low.toUInt16 ||| (high.toUInt16 <<< 8)).toNat = low ∧
      UInt8.ofNat ((low.toUInt16 ||| (high.toUInt16 <<< 8)).toNat / 256) = high := by
  have lowBound := low.toNat_lt
  have highBound := high.toNat_lt
  simp only [← UInt8.toNat_inj, UInt8.toNat_ofNat', unit_toNat]
  omega

theorem bytesOfUnits_unitsOfBytes (even : data.length % 2 = 0) :
    bytesOfUnits (unitsOfBytes data) = data := by
  fun_induction unitsOfBytes data with
  | case1 low high rest ih =>
    have pair := unit_bytes low high
    rw [bytesOfUnits, flatMap_cons, pair.1, pair.2, ← bytesOfUnits,
      ih (by rw [length_cons, length_cons] at even; omega)]
    rfl
  | case2 data short =>
    rcases data with _ | ⟨low, _ | ⟨high, rest⟩⟩
    · rfl
    · simp at even
    · exact absurd rfl (short low high rest)

theorem getDataType_string {type : UInt32}
    (string : type = regSz ∨ type = regExpandSz ∨ type = regMultiSz) (p : List UInt8) :
    getDataType ((if type ≠ regSz then ascii "str(" ++ (numeral 16 type.toNat ++ ascii "):") else []) ++
      ch '"' :: p) = some (type, .string, p) := by
  rcases string with rfl | rfl | rfl <;> rfl

theorem bytesOfDword_dwordOfBytes (length : data.length = 4) :
    bytesOfDword (dwordOfBytes data) = data ∧ dwordOfBytes data < 2 ^ 32 := by
  match data, length with
  | [a, b, c, d], _ =>
    have := a.toNat_lt
    have := b.toNat_lt
    have := c.toNat_lt
    have := d.toNat_lt
    simp only [dwordOfBytes, bytesOfDword, foldr_cons, foldr_nil, cons.injEq, and_true,
      ← UInt8.toNat_inj, UInt8.toNat_ofNat']
    omega

theorem getDataType_hex (type : UInt32) (p : List UInt8) :
    getDataType (hexTag type ++ p) = some (type, .binary, p) := by
  unfold hexTag
  split
  next binary =>
    rw [binary]
    rfl
  · have digits := numeral_isNumeral isxdigit_digitChar type.toNat
    have read : strtoul (numeral 16 type.toNat ++ (ascii "):" ++ p)) = (type.toNat, ascii "):" ++ p) :=
      strtoul_numeral digits (lt_trans type.toNat_lt (by decide)) (by
        rintro c ⟨⟩
        decide)
    have found : getDataType (ascii "hex(" ++ (numeral 16 type.toNat ++ (ascii "):" ++ p))) =
        let (n, stop) := strtoul (numeral 16 type.toNat ++ (ascii "):" ++ p))
        if (ascii "):").isPrefixOf stop then some (UInt32.ofNat n, .binary, stop.drop 2)
        else none := rfl
    rw [append_assoc, append_assoc, found, read]
    dsimp only
    rw [UInt32.ofNat_toNat]
    rfl

/-! ### Bytes -/

theorem byte_isNumeral (byte : UInt8) : IsNumeral isxdigit 16 (padded 2 16 byte.toNat) byte.toNat :=
  (numeral_isNumeral isxdigit_digitChar _).padded rfl _

theorem length_byte (byte : UInt8) : (padded 2 16 byte.toNat).length = 2 :=
  length_padded (length_numeral byte.toNat_lt)

/-- **One byte is read**, and the comma that follows it. -/
theorem parseHex_byte (byte : UInt8) {len : Nat} {p : List UInt8}
    (stops : ∀ c, p.head? = some c → c = ch ',' ∨ c = ch ')' ∨ c = ch '\\') :
    parseHex (len + 1) (padded 2 16 byte.toNat ++ p) =
      (parseHex len (skipComma p)).map fun (bytes, rest) => (byte :: bytes, rest) := by
  have bound := byte.toNat_lt
  have digits := byte_isNumeral byte
  have length := length_byte byte
  have read := strtoul_numeral digits (by omega) fun c first => by
    rcases stops c first with rfl | rfl | rfl <;> decide
  have starts : (padded 2 16 byte.toNat ++ p).head?.any isxdigit = true := by
    match text : padded 2 16 byte.toNat, length with
    | c :: more, _ => exact digits.digits c (by rw [text]; exact mem_cons_self)
  have moved : ¬(p = padded 2 16 byte.toNat ++ p ∨ byte.toNat % 2 ^ 32 > 0xff) := by
    rintro (same | large)
    · have := congrArg List.length same
      rw [length_append] at this
      omega
    · omega
  rw [parseHex, if_pos starts, read]
  dsimp only
  rw [if_neg moved, UInt8.ofNat_toNat]

/-- What is printed in one line of a value: some of the bytes, and a backslash if there are more. -/
structure HexLine (count : Nat) (data bytes left line : List UInt8) : Prop where
  split : data = bytes ++ left
  progress : data ≠ [] → bytes ≠ []
  printable : ∀ c ∈ line, 32 ≤ c
  text : dumpBytes count data =
    line ++ if left = [] then [] else ch '\n' :: (ascii "  " ++ dumpBytes 2 left)
  solid : ∀ c, line.head? = some c → isspace c = false
  length : 2 * bytes.length ≤ line.length
  parsed : ∀ len, bytes.length ≤ len →
    parseHex len line = some (bytes, if left = [] then [] else [ch '\\'])

theorem parseHex_stop (len : Nat) (stops : ∀ c, p.head? = some c → isxdigit c = false) :
    parseHex len p = some ([], p) := by
  unfold parseHex
  cases p with
  | nil => rfl
  | cons c p => rw [head?_cons, Option.any_some, stops c rfl, if_neg Bool.false_ne_true]

theorem byte_printable (byte : UInt8) : ∀ c ∈ padded 2 16 byte.toNat, 32 ≤ c := fun c member =>
  isxdigit_printable c ((byte_isNumeral byte).digits c member)

theorem byte_solid (byte : UInt8) (p : List UInt8) :
    ∀ c, (padded 2 16 byte.toNat ++ p).head? = some c → isspace c = false := by
  intro c first
  match text : padded 2 16 byte.toNat, length_byte byte with
  | d :: more, _ =>
    rw [text] at first
    cases first
    have digit := (byte_isNumeral byte).digits c (by rw [text]; exact mem_cons_self)
    exact (isxdigit_start c digit).1

theorem dumpBytes_cons (count : Nat) (byte : UInt8) (more : data ≠ []) :
    dumpBytes count (byte :: data) = padded 2 16 byte.toNat ++ ch ',' ::
      if count + 3 > 76 then ch '\\' :: ch '\n' :: (ascii "  " ++ dumpBytes 2 data)
      else dumpBytes (count + 3) data := by
  cases data with
  | nil => exact absurd rfl more
  | cons => rfl

theorem HexLine.cons {count : Nat} {left : List UInt8} (byte : UInt8) (more : data ≠ [])
    (short : ¬count + 3 > 76) (rest : HexLine (count + 3) data bytes left line) :
    HexLine count (byte :: data) (byte :: bytes) left (padded 2 16 byte.toNat ++ ch ',' :: line) where
  split := congrArg (byte :: ·) rest.split
  progress _ := cons_ne_nil _ _
  printable := by
    rw [forall_mem_append, forall_mem_cons]
    exact ⟨byte_printable byte, by decide, rest.printable⟩
  text := by
    rw [dumpBytes_cons count byte more, if_neg short, rest.text, append_assoc, cons_append]
  solid := byte_solid byte _
  length := by
    have := rest.length
    have := length_byte byte
    simp only [length_append, length_cons]
    omega
  parsed len room := by
    obtain ⟨len, rfl⟩ : ∃ n, len = n + 1 := ⟨len - 1, by simp at room; omega⟩
    have comma : skipComma (ch ',' :: line) = line := dropWhile_isspace rest.solid
    rw [parseHex_byte byte (by rintro c ⟨⟩; exact .inl rfl), comma, rest.parsed len (by simpa using room)]
    rfl

theorem HexLine.wrap {count : Nat} (byte : UInt8) (more : data ≠ []) (long : count + 3 > 76) :
    HexLine count (byte :: data) [byte] data (padded 2 16 byte.toNat ++ [ch ',', ch '\\']) where
  split := rfl
  progress _ := cons_ne_nil _ _
  printable := by
    rw [forall_mem_append]
    exact ⟨byte_printable byte, by decide +kernel⟩
  text := by
    rw [dumpBytes_cons count byte more, if_pos long, if_neg more, append_assoc]
    rfl
  solid := byte_solid byte _
  length := by
    simp only [length_append, length_cons, length_nil]
    omega
  parsed len room := by
    obtain ⟨len, rfl⟩ : ∃ n, len = n + 1 := ⟨len - 1, by simp at room; omega⟩
    have comma : skipComma [ch ',', ch '\\'] = [ch '\\'] := rfl
    rw [parseHex_byte byte (by rintro c ⟨⟩; exact .inl rfl), comma,
      parseHex_stop len (by rintro c ⟨⟩; rfl), if_neg more]
    rfl

/-- **Every line** of a value that is printed as bytes. -/
theorem exists_hexLine (count : Nat) (data : List UInt8) :
    ∃ bytes left line, HexLine count data bytes left line := by
  fun_induction dumpBytes count data with
  | case1 count =>
    exact ⟨[], [], [], rfl, absurd rfl, by simp, rfl, by simp, le_rfl,
      fun len _ => parseHex_stop len (by simp)⟩
  | case2 count byte =>
    refine ⟨[byte], [], padded 2 16 byte.toNat, rfl, fun _ => cons_ne_nil _ _,
      byte_printable byte, ?_, ?_, (length_byte byte).ge, fun len room => ?_⟩
    · rw [if_pos rfl, append_nil]
      rfl
    · simpa using byte_solid byte []
    · obtain ⟨len, rfl⟩ : ∃ n, len = n + 1 := ⟨len - 1, by simp at room; omega⟩
      have read := @parseHex_byte byte len [] (by simp)
      rw [append_nil] at read
      rw [read, skipComma, parseHex_stop len (by simp)]
      rfl
  | case3 count byte data more next same =>
    by_cases long : count + 3 > 76
    · exact ⟨_, _, _, HexLine.wrap byte more long⟩
    · obtain ⟨bytes, left, line, rest⟩ := same
      exact ⟨_, _, _, rest.cons byte more long⟩

theorem loadHex_continued {len tmplen' : Nat} {next : List UInt8} {done : LoadInfo}
    (parsed : parseHex (1 + line.length / 2) line = some (bytes, [ch '\\']))
    (space : tmplen' = max tmplen (len + (1 + line.length / 2)))
    (read : readNextLine file = some (next, rest))
    (loaded : loadHex (len + bytes.length) (next.dropWhile isspace) ⟨tmplen', rest⟩ = (some data, done)) :
    loadHex len line ⟨tmplen, file⟩ = (some (bytes ++ data), done) := by
  have stop : [ch '\\'].dropWhile isspace = [ch '\\'] := rfl
  have goes : ¬(ch '\\' ≠ ch '\\') := fun differs => differs rfl
  rw [loadHex, parsed]
  dsimp only [LoadInfo.getFileTmpSpace]
  rw [stop, ← space]
  dsimp only
  rw [if_neg goes]
  split
  next none => exact absurd (none.symm.trans read) nofun
  next other more same =>
    cases same.symm.trans read
    rw [loaded]
    rfl

/-- **The lines of a value that is printed as bytes** are read back, and nothing behind them. -/
theorem loadHex_dumpBytes (count : Nat) (data rest : List UInt8) :
    ∃ line file, (∀ c ∈ line, 32 ≤ c) ∧ (∀ c, line.head? = some c → isspace c = false) ∧
      dumpBytes count data ++ ch '\n' :: rest = line ++ ch '\n' :: file ∧
      ∀ len tmplen, ∃ tmplen', loadHex len line ⟨tmplen, file⟩ = (some data, ⟨tmplen', rest⟩) := by
  -- the lines are taken one after the other: each holds a byte, as long as there is one
  induction size : data.length using Nat.strong_induction_on generalizing data count with
  | _ size ih =>
  obtain ⟨bytes, left, line, this⟩ := exists_hexLine count data
  have room : bytes.length ≤ 1 + line.length / 2 := by
    have := this.length
    omega
  have parsed := this.parsed _ room
  have text := this.text
  by_cases last : left = []
  · rw [if_pos last] at parsed text
    refine ⟨line, rest, this.printable, this.solid, ?_, fun len tmplen => ?_⟩
    · rw [text, append_nil]
    · rw [loadHex, parsed, this.split, last, append_nil]
      exact ⟨_, rfl⟩
  · rw [if_neg last] at parsed text
    have shorter : left.length < data.length := by
      have nonempty : bytes ≠ [] := this.progress fun empty =>
        last (append_eq_nil_iff.mp (this.split.symm.trans empty)).2
      rw [this.split, length_append]
      have := length_pos_iff.mpr nonempty
      omega
    obtain ⟨next, file, printable, solid, lines, loads⟩ :=
      ih left.length (size ▸ shorter) 2 left rfl
    have indented : ∀ c ∈ ascii "  " ++ next, 32 ≤ c :=
      forall_mem_append.mpr ⟨by decide +kernel, printable⟩
    have blanks : (ascii "  " ++ next).dropWhile isspace = next := dropWhile_isspace solid
    refine ⟨line, ascii "  " ++ next ++ ch '\n' :: file, this.printable, this.solid, ?_,
      fun len tmplen => ?_⟩
    · rw [text, append_assoc, append_assoc, ← lines, cons_append, append_assoc]
    · obtain ⟨tmplen', loaded⟩ := loads (len + bytes.length) (max tmplen (len + (1 + line.length / 2)))
      exact ⟨tmplen', this.split ▸
        loadHex_continued parsed rfl (readNextLine_line file indented) (by rw [blanks]; exact loaded)⟩

/-! ### Values -/

/-- What is printed behind the name of a value: its first line, and the rest of the file. -/
structure Prints (value : KeyValue) (rest line file : List UInt8) : Prop where
  text : dumpValue value ++ rest = dumpName value.name ++ (line ++ ch '\n' :: file)
  printable : ∀ c ∈ line, 32 ≤ c
  solid : ∀ c, line.head? = some c → isspace c = false
  loads : ∀ tmplen, ∃ tmplen',
    loadData line ⟨tmplen, file⟩ = (some (value.type, value.data), ⟨tmplen', rest⟩)

variable {value : KeyValue}

theorem prints_string (rest : List UInt8)
    (string : value.type = regSz ∨ value.type = regExpandSz ∨ value.type = regMultiSz)
    (ends : terminated value.data) : ∃ line, Prints value rest line rest := by
  have units : (unitsOfBytes value.data).dropLast ++ [0] = unitsOfBytes value.data :=
    dropLast_append_getLast? 0 ends.2.2
  refine ⟨(if value.type ≠ regSz then ascii "str(" ++ (numeral 16 value.type.toNat ++ ascii "):")
    else []) ++ ch '"' :: (dumpStrW (ch '"', ch '"') (unitsOfBytes value.data).dropLast ++ [ch '"']),
    ?_, ?_, ?_, fun tmplen => ?_⟩
  · rw [dumpValue]
    rw [if_pos ⟨string, ends⟩]
    simp only [append_assoc, cons_append, nil_append]
    rfl
  · rw [forall_mem_append, forall_mem_cons, forall_mem_append]
    refine ⟨?_, by decide, dumpStrW_printable _ _, by decide +kernel⟩
    rcases string with same | same | same <;> rw [same] <;> decide +kernel
  · rcases string with same | same | same <;> rw [same] <;> rintro c ⟨⟩ <;> rfl
  · have length := length_le_dumpStrW (ch '"', ch '"') (unitsOfBytes value.data).dropLast
    have fits : (unitsOfBytes value.data).dropLast.length < max tmplen (2 * (dumpStrW (ch '"', ch '"')
        (unitsOfBytes value.data).dropLast ++ [ch '"']).length) / 2 := by
      rw [length_append, length_singleton]
      omega
    have parsed : parseStrW _ (dumpStrW (ch '"', ch '"') (unitsOfBytes value.data).dropLast ++
        [ch '"']) (ch '"') = _ := parseStrW_dump .value [] fits
    rw [loadData, getDataType_string string]
    dsimp only [LoadInfo.getFileTmpSpace]
    rw [parsed, units, Option.map_some, bytesOfUnits_unitsOfBytes ends.2.1]
    exact ⟨_, rfl⟩

theorem prints_dword (rest : List UInt8) (dword : value.type = regDword)
    (length : value.data.length = 4) : ∃ line, Prints value rest line rest := by
  have noString : ¬((value.type = regSz ∨ value.type = regExpandSz ∨ value.type = regMultiSz) ∧
      terminated value.data) := by
    rw [dword]
    exact fun string => absurd string.1 (by decide)
  obtain ⟨bytes, bound⟩ := bytesOfDword_dwordOfBytes length
  have digits : IsNumeral isxdigit 16 (padded 8 16 (dwordOfBytes value.data)) _ :=
    (numeral_isNumeral isxdigit_digitChar _).padded rfl _
  refine ⟨ascii "dword:" ++ padded 8 16 (dwordOfBytes value.data), ?_, ?_, ?_, fun tmplen => ?_⟩
  · rw [dumpValue]
    rw [if_neg noString, if_pos ⟨dword, length⟩]
    simp only [append_assoc, cons_append, nil_append]
  · rw [forall_mem_append]
    exact ⟨by decide +kernel, fun c member => isxdigit_printable c (digits.digits c member)⟩
  · rintro c ⟨⟩
    rfl
  · have read : strtoul (padded 8 16 (dwordOfBytes value.data) ++ []) = _ :=
      strtoul_numeral digits (by omega) (by simp)
    rw [append_nil] at read
    have found : getDataType (ascii "dword:" ++ padded 8 16 (dwordOfBytes value.data)) =
        some (regDword, .dword, padded 8 16 (dwordOfBytes value.data)) := rfl
    rw [loadData, found]
    dsimp only
    rw [read, bytes, dword]
    exact ⟨_, rfl⟩

theorem hexTag_printable (type : UInt32) : ∀ c ∈ hexTag type, 32 ≤ c := by
  have digits := numeral_isNumeral isxdigit_digitChar type.toNat
  unfold hexTag
  split
  · decide +kernel
  · rw [forall_mem_append, forall_mem_append]
    exact ⟨by decide +kernel, fun c member => isxdigit_printable c (digits.digits c member),
      by decide +kernel⟩

theorem prints_hex (rest : List UInt8)
    (noString : ¬((value.type = regSz ∨ value.type = regExpandSz ∨ value.type = regMultiSz) ∧
      terminated value.data)) (noDword : ¬(value.type = regDword ∧ value.data.length = 4)) :
    ∃ line file, Prints value rest line file := by
  obtain ⟨line, file, printable, -, lines, loads⟩ := loadHex_dumpBytes
    ((dumpName value.name).length + (hexTag value.type).length) value.data rest
  refine ⟨hexTag value.type ++ line, file, ?_, ?_, by unfold hexTag; split <;> rintro c ⟨⟩ <;> rfl,
    fun tmplen => ?_⟩
  · rw [dumpValue]
    rw [if_neg noString, if_neg noDword]
    simp only [append_assoc, cons_append, nil_append, lines]
  · exact forall_mem_append.mpr ⟨hexTag_printable value.type, printable⟩
  · obtain ⟨tmplen', loaded⟩ := loads 0 tmplen
    rw [loadData, getDataType_hex]
    dsimp only
    rw [loaded]
    exact ⟨tmplen', rfl⟩

/-- **Every value** is printed in one of the three ways. -/
theorem exists_prints (value : KeyValue) (rest : List UInt8) :
    ∃ line file, Prints value rest line file := by
  by_cases string : (value.type = regSz ∨ value.type = regExpandSz ∨ value.type = regMultiSz) ∧
      terminated value.data
  · exact (prints_string rest string.1 string.2).imp fun _ prints => ⟨rest, prints⟩
  by_cases dword : value.type = regDword ∧ value.data.length = 4
  · exact (prints_dword rest dword.1 dword.2).imp fun _ prints => ⟨rest, prints⟩
  · exact prints_hex rest string dword

/-- What it means that a value was set: the key holds its type and data under its name. An older
value of the name keeps the case of its own. -/
structure Stored (heap heap' : Heap) (k : Nat) (value : KeyValue) : Prop where
  entry : ∃ new ∈ (heap'.key k).values, new.type = value.type ∧ new.data = value.data ∧
    folded heap.casemap new.name = folded heap.casemap value.name
  fresh : (∀ old ∈ (heap.key k).values,
    folded heap.casemap old.name ≠ folded heap.casemap value.name) → value ∈ (heap'.key k).values
  others : ∀ i, i ≠ k → heap'.key i = heap.key i
  puts : Tidy heap k → Puts heap heap' k value.name (some (value.type, value.data))

theorem Heap.setValues_other (heap : Heap) (k : Nat) (values : List KeyValue) (nbValues : Nat)
    {i : Nat} (other : i ≠ k) : (heap.setValues k values nbValues).key i = heap.key i := by
  rw [Heap.setValues, Heap.modify, Heap.set_key, if_neg other]

theorem storeValue_stored (heap : Heap) (k : Nat) (short : value.name.length ≤ maxValueLen) :
    Stored heap (heap.storeValue k value.name value.type value.data).1 k value := by
  have puts := fun tidy : Tidy heap k => (storeValue_puts tidy value.type value.data short).2
  unfold Heap.storeValue at puts ⊢
  split at puts
  next index found =>
    obtain ⟨old, place, equal⟩ := findName_found found
    have member := mem_of_getElem? place
    refine ⟨⟨{ old with type := value.type, data := value.data }, ?_, rfl, rfl, equal⟩,
      fun fresh => absurd equal (fresh old member), fun i other => ?_, puts⟩
    · rw [(heap.setValues_self k _ _).1]
      exact mem_of_getElem? (i := index) (by rw [getElem?_modify_eq, place]; rfl)
    · exact heap.setValues_other k _ _ other
  next index gap =>
    rw [if_neg (not_lt.mpr short)] at puts ⊢
    have bound : index ≤ (heap.key k).values.length := bisect_gap_le (Nat.zero_le _) gap
    have member : value ∈ ((heap.setValues k
        ((shiftUp ((heap.key k).values ++ [value]) (heap.key k).values.length index).set index value)
        (grown (heap.key k).values.length (heap.key k).nbValues minValues)).key k).values := by
      rw [(heap.setValues_self k _ _).1, shiftUp_insert value bound]
      simp
    exact ⟨⟨value, member, rfl, rfl, rfl⟩, fun _ => member,
      fun i other => heap.setValues_other k _ _ other, puts⟩

/-- `load_value` stores what was printed, and it is at the end of the lines. -/
theorem Prints.loadValue (prints : Prints value rest line file) (heap : Heap) (k : Nat)
    (short : value.name.length ≤ maxValueLen) (tmplen : Nat) :
    ∃ tmplen', heap.loadValue k (dumpName value.name ++ line) ⟨tmplen, file⟩ =
      ((heap.storeValue k value.name value.type value.data).1, ⟨tmplen', rest⟩, true) := by
  have name := @parseValueName_dump line
    (max tmplen (2 * (dumpName value.name ++ line).length)) value.name (Nat.le_max_right _ _) prints.solid
  obtain ⟨tmplen', loaded⟩ := prints.loads (max tmplen (2 * (dumpName value.name ++ line).length))
  refine ⟨tmplen', ?_⟩
  unfold Heap.loadValue
  dsimp only [LoadInfo.getFileTmpSpace]
  rw [name]
  dsimp only
  rw [if_neg, loaded]
  unfold Heap.refuses
  split
  · exact Bool.false_ne_true
  · exact fun long => of_decide_eq_true long |>.not_ge short

theorem Prints.readNextLine (prints : Prints value rest line file) :
    readNextLine (dumpValue value ++ rest) = some (dumpName value.name ++ line, file) := by
  rw [prints.text, ← append_assoc]
  exact readNextLine_line file (forall_mem_append.mpr ⟨dumpName_printable value.name, prints.printable⟩)

/-- **Values are read back.** From the lines that `dump_value` prints, whatever follows them,
`load_value` sets a value with the same name, type and data; it reads these lines and no more. -/
theorem loadValue_dumpValue (heap : Heap) (k : Nat) (value : KeyValue) (tmplen : Nat)
    (rest : List UInt8) (short : value.name.length ≤ maxValueLen) :
    ∃ line file heap' tmplen', readNextLine (dumpValue value ++ rest) = some (line, file) ∧
      heap.loadValue k line ⟨tmplen, file⟩ = (heap', ⟨tmplen', rest⟩, true) ∧
      Stored heap heap' k value := by
  obtain ⟨line, file, prints⟩ := exists_prints value rest
  obtain ⟨tmplen', loaded⟩ := prints.loadValue heap k short tmplen
  exact ⟨_, file, _, tmplen', prints.readNextLine, loaded, storeValue_stored heap k short⟩

theorem loadValue_dumpValue_binary :
    (List.replicate 3 (unit 'n')).length ≤ maxValueLen ∧
      ∃ line file heap' tmplen',
        readNextLine (dumpValue ⟨List.replicate 3 (unit 'n'), 3, List.replicate 60 255⟩ ++
          ascii "[Key]\n") = some (line, file) ∧
        (Server.initial asciiLower 100).heap.loadValue 0 line ⟨4, file⟩ =
          (heap', ⟨tmplen', ascii "[Key]\n"⟩, true) ∧
        Stored (Server.initial asciiLower 100).heap heap' 0
          ⟨List.replicate 3 (unit 'n'), 3, List.replicate 60 255⟩ :=
  ⟨by decide, loadValue_dumpValue (Server.initial asciiLower 100).heap 0
    ⟨replicate 3 (unit 'n'), 3, replicate 60 255⟩ 4 (ascii "[Key]\n") (by decide)⟩

end FreeWindows.Registry
