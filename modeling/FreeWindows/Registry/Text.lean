/-
**The text of a registry file.**

What `save_all_subkeys` writes: a header and, for each key that has to be mentioned, its path, its time,
its class, whether it is a link, and its values (`saveSubkeys_eq`). A key that has neither values nor a
class nor a link is left to its subkeys, also if all of these are volatile. The times of the keys are an
argument of the text: nothing else depends on them.
-/

import FreeWindows.Registry.Lookup
import FreeWindows.Registry.Strings

namespace FreeWindows.Registry

open Lib List

/-! ### Types and data -/

def regNone : UInt32 := 0

def regSz : UInt32 := 1

def regExpandSz : UInt32 := 2

def regBinary : UInt32 := 3

def regDword : UInt32 := 4

def regMultiSz : UInt32 := 7

/-- The number that four bytes make up, the lowest one first. -/
def dwordOfBytes (data : List UInt8) : Nat := data.foldr (fun byte dw => byte.toNat + 256 * dw) 0

def bytesOfDword (dw : Nat) : List UInt8 :=
  [UInt8.ofNat dw, UInt8.ofNat (dw / 256), UInt8.ofNat (dw / 65536), UInt8.ofNat (dw / 16777216)]

/-! ### Values -/

/-- The name of a value. -/
def dumpName (name : Name) : List UInt8 :=
  if name = [] then ascii "@=" else ch '"' :: (dumpStrW (ch '"', ch '"') name ++ ascii "\"=")

/-- The bytes of a value, from the column `count` on. -/
def dumpBytes : (count : Nat) → List UInt8 → List UInt8
  | _, [] => []
  | _, [byte] => padded 2 16 byte.toNat
  | count, byte :: data =>
    padded 2 16 byte.toNat ++ ch ',' ::
      if count + 3 > 76 then ch '\\' :: ch '\n' :: (ascii "  " ++ dumpBytes 2 data)
      else dumpBytes (count + 3) data

/-- Strings that are printed as such: they end with a zero. -/
def terminated (data : List UInt8) : Prop :=
  2 ≤ data.length ∧ data.length % 2 = 0 ∧ (unitsOfBytes data).getLast? = some 0

instance (data : List UInt8) : Decidable (terminated data) := inferInstanceAs (Decidable (_ ∧ _ ∧ _))

/-- The tag of a value that is printed as bytes. -/
def hexTag (type : UInt32) : List UInt8 :=
  if type = regBinary then ascii "hex:" else ascii "hex(" ++ (numeral 16 type.toNat ++ ascii "):")

def dumpValue (value : KeyValue) : List UInt8 :=
  let name := dumpName value.name
  if (value.type = regSz ∨ value.type = regExpandSz ∨ value.type = regMultiSz) ∧
      terminated value.data then
    let tag := if value.type ≠ regSz then ascii "str(" ++ (numeral 16 value.type.toNat ++ ascii "):")
      else []
    name ++ (tag ++ (ch '"' :: (dumpStrW (ch '"', ch '"') (unitsOfBytes value.data).dropLast ++
      ascii "\"\n")))
  else if value.type = regDword ∧ value.data.length = 4 then
    name ++ (ascii "dword:" ++ (padded 8 16 (dwordOfBytes value.data) ++ [ch '\n']))
  else
    let tag := hexTag value.type
    name ++ (tag ++ (dumpBytes (name.length + tag.length) value.data ++ [ch '\n']))

/-! ### Keys -/

def ticksPerSec : Int := 10000000

def ticks1601To1970 : Int := 86400 * (369 * 365 + 89) * ticksPerSec

/-- `prefix_type`. -/
inductive Arch
  | unknown
  | win32
  | win64
deriving DecidableEq, Repr

def escapeBrackets : UInt8 × UInt8 := (ch '[', ch ']')

def escapeQuotes : UInt8 × UInt8 := (ch '"', ch '"')

def Heap.dumpPath (heap : Heap) (base : Option Nat) (k : Nat) : List UInt8 :=
  let name := dumpStrW escapeBrackets (heap.key k).name
  match _ : (heap.key k).parent with
  | none => name
  | some p => if some p = base then name else heap.dumpPath base p ++ (ascii "\\\\" ++ name)
termination_by k
decreasing_by exact (heap.linked k p ‹_›).1

/-- The time behind the path of a key, in seconds since 1970. -/
def seconds (modif : Int) : Nat := ((modif - ticks1601To1970).tdiv ticksPerSec % 2 ^ 32).toNat

/-- The option for the time. -/
def timeOption (modif : Int) : List UInt8 :=
  ascii "#time=" ++ (numeral 16 (modif / 2 ^ 32 % 2 ^ 32).toNat ++ padded 8 16 (modif % 2 ^ 32).toNat)

def classOption (cls : Name) : List UInt8 :=
  ascii "#class=\"" ++ (dumpStrW escapeQuotes cls ++ [ch '"'])

/-- The options of a key, without the ends of their lines. -/
def keyOptions (key : Key) (modif : Int) : List (List UInt8) :=
  timeOption modif ::
    (key.cls.toList.map classOption ++ if key.flags.symlink then [ascii "#link"] else [])

/-- A text of lines. -/
def lines (texts : List (List UInt8)) : List UInt8 := texts.flatMap (· ++ [ch '\n'])

/-- Whether `save_subkeys` writes the key itself. Others are there because of their subkeys. -/
def Key.written (key : Key) : Bool :=
  key.values ≠ [] ∨ key.subkeys = [] ∨ key.cls.isSome ∨ key.flags.symlink

/-- The path of a key relative to `base`. -/
def Heap.pathBelow (heap : Heap) (base k : Nat) : List UInt8 :=
  if k = base then [] else heap.dumpPath (some base) k

theorem Heap.dumpPath_child {heap : Heap} {base : Option Nat} {k p : Nat}
    (parent : (heap.key k).parent = some p) : heap.dumpPath base k =
      (if some p = base then [] else heap.dumpPath base p ++ ascii "\\\\") ++
        dumpStrW escapeBrackets (heap.key k).name := by
  rw [dumpPath]
  split
  · next none =>
    rw [parent] at none
    cases none
  · next q above =>
    rw [parent] at above
    cases above
    split
    · rfl
    · rw [append_assoc]

theorem Heap.pathBelow_child (heap : Heap) {b c p : Nat} (notRoot : c ≠ b)
    (parent : (heap.key c).parent = some p) : heap.pathBelow b c =
      (if p = b then [] else heap.pathBelow b p ++ ascii "\\\\") ++
        dumpStrW escapeBrackets (heap.key c).name := by
  rw [pathBelow, if_neg notRoot, dumpPath_child parent]
  by_cases root : p = b
  · rw [if_pos root, if_pos (congrArg some root)]
  · rw [if_neg root, if_neg fun same => root (Option.some.inj same), pathBelow, if_neg root]

/-- What is written for one key: its path, its time, its options and its values. -/
def keySection (path : List UInt8) (key : Key) (modif : Int) : List UInt8 :=
  ascii "\n[" ++ (path ++ (ascii "] " ++ (numeral 10 (seconds modif) ++
    (ch '\n' :: (lines (keyOptions key modif) ++ key.values.flatMap dumpValue)))))

def Heap.saveKey (heap : Heap) (modif : Nat → Int) (base k : Nat) : List UInt8 :=
  keySection (heap.pathBelow base k) (heap.key k) (modif k)

def Heap.saveSubkeys (heap : Heap) (modif : Nat → Int) (base k : Nat) : List UInt8 :=
  if (heap.key k).flags.volatile then []
  else
    (if (heap.key k).written then heap.saveKey modif base k else []) ++
      (heap.key k).subkeys.attach.flatMap fun c => heap.saveSubkeys modif base c.1
termination_by heap.next - k
decreasing_by
  have := heap.children k c.1 c.2
  omega

/-- The lines in front of the keys. -/
def Heap.fileHeader (heap : Heap) (arch : Arch) (k : Nat) : List UInt8 :=
  ascii "WINE REGISTRY Version 2\n" ++ (ascii ";; All keys relative to " ++
    (heap.dumpPath none k ++ (ch '\n' ::
      match arch with
      | .unknown => []
      | .win32 => ascii "\n#arch=win32\n"
      | .win64 => ascii "\n#arch=win64\n")))

def Heap.saveAllSubkeys (heap : Heap) (modif : Nat → Int) (arch : Arch) (k : Nat) : List UInt8 :=
  heap.fileHeader arch k ++ heap.saveSubkeys modif k k

/-! ### The keys of a file -/

/-- The keys that `save_subkeys` visits, in their order. -/
def Heap.visited (heap : Heap) (k : Nat) : List Nat :=
  if (heap.key k).flags.volatile then []
  else k :: (heap.key k).subkeys.attach.flatMap fun c => heap.visited c.1
termination_by heap.next - k
decreasing_by
  have := heap.children k c.1 c.2
  omega

/-- The keys that it writes. -/
def Heap.writtenKeys (heap : Heap) (k : Nat) : List Nat :=
  (heap.visited k).filter fun i => (heap.key i).written

theorem Heap.saveSubkeys_eq (heap : Heap) (modif : Nat → Int) (base k : Nat) :
    heap.saveSubkeys modif base k = (heap.writtenKeys k).flatMap (heap.saveKey modif base) := by
  unfold writtenKeys
  fun_induction Heap.visited heap k with
  | case1 k volatile => rw [saveSubkeys, if_pos volatile, filter_nil, flatMap_nil]
  | case2 k nonvolatile ih =>
    rw [saveSubkeys, if_neg nonvolatile, filter_cons, filter_flatMap]
    split
    · rw [flatMap_cons, flatMap_assoc]
      exact congrArg _ (flatMap_congr fun c _ => ih c)
    · rw [nil_append, flatMap_assoc]
      exact flatMap_congr fun c _ => ih c

/-- A section has of the key only its class, its link and its values. -/
theorem keySection_congr {key key' : Key} (path : List UInt8) (modif : Int)
    (symlink : key'.flags.symlink = key.flags.symlink) (values : key'.values = key.values) :
    keySection path key modif = keySection path { key' with cls := key.cls } modif := by
  unfold keySection keyOptions
  rw [symlink, values]

end FreeWindows.Registry
