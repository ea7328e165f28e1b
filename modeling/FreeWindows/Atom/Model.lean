/-
**Atom tables of the server** (`server/atom.c`, with `hash_strW` of `server/unicode.c`).

A table gives numbers to names. A name of the form `#1234` is a number already, an integer atom;
every other name gets the next free slot of an array, and an entry in the hash chain of its name.

* entries are blocks of memory: they have addresses, and links to the next and the previous entry of
  their chain; an address is not used again after `free`;
* `entry->count` is an `int`, which nothing keeps from wrapping around;
* allocation does not fail; `set_error` is the error that a call returns instead of an atom.
-/

import FreeWindows.Lib.Linked
import FreeWindows.Registry.Names

namespace FreeWindows.Atom

open Lib Registry Function

abbrev EntryId := Nat

def hashSize : Nat := 37
def minStrAtom : Nat := 0xc000
def maxAtoms : Nat := 0x4000
def maxAtomLen : Nat := 255
def maxIntAtom : Nat := 0xc000

inductive AtomError where
  | objectNameInvalid
  | invalidParameter
  | noMemory
  | objectNameNotFound
  | invalidHandle
deriving DecidableEq, Repr

/-- `struct atom_entry`. -/
structure AtomEntry where
  next : Option EntryId
  prev : Option EntryId
  count : BitVec 32
  atom : Nat
  hash : Nat
  str : Name
deriving DecidableEq, Repr

/-- `struct atom_table`, with the memory that its entries are in. -/
structure AtomTable where
  count : Nat
  atoms : Nat → Option EntryId
  entries : Nat → Option EntryId
  memory : EntryId → AtomEntry
  nextEntry : EntryId

/-- `create_atom_table`: atom 0xc000 is reserved. -/
def createAtomTable : AtomTable where
  count := 1
  atoms _ := none
  entries _ := none
  memory _ := ⟨none, none, 0, 0, 0, []⟩
  nextEntry := 0

def AtomTable.modify (table : AtomTable) (entry : EntryId) (change : AtomEntry → AtomEntry) :
    AtomTable :=
  { table with memory := update table.memory entry (change (table.memory entry)) }

/-- The entry that a link leads to is changed, if there is one. -/
def AtomTable.modify? (table : AtomTable) (link : Option EntryId) (change : AtomEntry → AtomEntry) :
    AtomTable :=
  match link with
  | some entry => table.modify entry change
  | none => table

/-! ### Names -/

/-- The hash of a name, an unsigned 32-bit number before it is reduced. -/
def hashStrW (casemap : CaseMap) (str : Name) : Nat :=
  str.foldl (fun hash unit => (hash * 65599 + (casemap unit).toNat) % 2 ^ 32) 0 % hashSize

/-- The loop of `get_int_atom_value`. -/
def intAtomLoop : Nat → Name → Nat
  | ret, [] => ret
  | ret, unit :: rest =>
    if unit < 0x30 ∨ unit > 0x39 then 0
    else
      let ret := ret * 10 + (unit.toNat - 0x30)
      if ret ≥ maxIntAtom then 0 else intAtomLoop ret rest

/-- The number that a name stands for, or 0. -/
def getIntAtomValue : Name → Nat
  | [] => 0
  | unit :: rest => if unit ≠ 0x23 then 0 else intAtomLoop 0 rest

/-! ### Entries -/

/-- Retrieve an entry pointer from its atom. -/
def AtomTable.getAtomEntry (table : AtomTable) (atom : Nat) : Option EntryId :=
  if atom ≥ minStrAtom ∧ atom < minStrAtom + table.count then table.atoms (atom - minStrAtom)
  else none

/-- The loop of `add_atom_entry`: the first slot from `i` on that is free, or the one behind the
`left` that are looked at. -/
def freeSlot (atoms : Nat → Option EntryId) : (left i : Nat) → Nat
  | 0, i => i
  | left + 1, i => if atoms i = none then i else freeSlot atoms left (i + 1)

/-- Add an atom entry in the table and return its handle; none if the table is full. -/
def AtomTable.addAtomEntry (table : AtomTable) (entry : EntryId) : Option (AtomTable × Nat) :=
  let i := freeSlot table.atoms (table.count - 1) 1
  if i = maxAtoms then none
  else
    let table := { table with
      count := if i = table.count then table.count + 1 else table.count
      atoms := update table.atoms i (some entry) }
    some (table.modify entry fun e => { e with atom := i + minStrAtom }, i + minStrAtom)

/-- The comparison of `find_atom_entry`. -/
def sameName (casemap : CaseMap) (str : Name) (entry : AtomEntry) : Bool :=
  decide (entry.str.length = str.length) && decide (memicmpStrW casemap entry.str str = 0)

/-- Find an atom entry in its hash list. -/
def AtomTable.findAtomEntry (casemap : CaseMap) (table : AtomTable) (str : Name) (hash : Nat) :
    Option EntryId :=
  walk (fun e => (table.memory e).next) (fun e => sameName casemap str (table.memory e))
    table.nextEntry (table.entries hash)

/-! ### The operations -/

/-- Put a new entry at the head of its hash chain and fill it in. -/
def AtomTable.linkEntry (table : AtomTable) (entry : EntryId) (hash : Nat) (str : Name) : AtomTable :=
  let head := table.entries hash
  let table := table.modify? head fun first => { first with prev := some entry }
  let table := table.modify entry fun e =>
    { e with prev := none, next := head, count := 1, hash := hash, str := str }
  { table with entries := update table.entries hash (some entry) }

def AtomTable.addAtom (casemap : CaseMap) (table : AtomTable) (str : Name) :
    AtomTable × Except AtomError Nat :=
  if str.length = 0 then (table, .error .objectNameInvalid)
  else if str.length > maxAtomLen then (table, .error .invalidParameter)
  else if getIntAtomValue str ≠ 0 then (table, .ok (getIntAtomValue str))
  else
    let hash := hashStrW casemap str
    match table.findAtomEntry casemap str hash with
    | some entry =>
      -- exists already
      (table.modify entry fun e => { e with count := e.count + 1 }, .ok (table.memory entry).atom)
    | none =>
      let entry := table.nextEntry
      let table := { table with nextEntry := table.nextEntry + 1 }
      match table.addAtomEntry entry with
      | some (table, atom) => (table.linkEntry entry hash str, .ok atom)
      | none => (table, .error .noMemory)

/-- Take an entry out of its hash chain. -/
def AtomTable.unlinkEntry (table : AtomTable) (entry : EntryId) : AtomTable :=
  let e := table.memory entry
  let table := table.modify? e.next fun next => { next with prev := e.prev }
  let table := table.modify? e.prev fun prev => { prev with next := e.next }
  if e.prev = none then { table with entries := update table.entries e.hash e.next }
  else table

def AtomTable.deleteAtom (table : AtomTable) (atom : Nat) : AtomTable × Except AtomError Unit :=
  match table.getAtomEntry atom with
  | none => (table, .error .invalidHandle)
  | some entry =>
    let table := table.modify entry fun e => { e with count := e.count - 1 }
    if (table.memory entry).count = 0 then
      let table := table.unlinkEntry entry
      ({ table with atoms := update table.atoms (atom - minStrAtom) none }, .ok ())
    else (table, .ok ())

def AtomTable.findAtom (casemap : CaseMap) (table : AtomTable) (str : Name) : Except AtomError Nat :=
  if str.length = 0 then .error .objectNameInvalid
  else if str.length > maxAtomLen then .error .invalidParameter
  else if getIntAtomValue str ≠ 0 then .ok (getIntAtomValue str)
  else
    match table.findAtomEntry casemap str (hashStrW casemap str) with
    | some entry => .ok (table.memory entry).atom
    | none => .error .objectNameNotFound

/-- Increment the ref count of an atom. -/
def AtomTable.grabAtom (table : AtomTable) (atom : Nat) : AtomTable × Except AtomError Nat :=
  if atom ≥ minStrAtom then
    match table.getAtomEntry atom with
    | none => (table, .error .invalidHandle)
    | some entry => (table.modify entry fun e => { e with count := e.count + 1 }, .ok atom)
  else (table, .ok atom)

/-- Decrement the ref count of an atom. -/
def AtomTable.releaseAtom (table : AtomTable) (atom : Nat) : AtomTable × Except AtomError Unit :=
  if atom ≥ minStrAtom then table.deleteAtom atom else (table, .ok ())

end FreeWindows.Atom
