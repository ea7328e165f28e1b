/-
**The handle tables of the wine server.**

`server/handle.c`: every process has a table of entries, and one global table serves all
processes. A handle is `(index + 1) << 2` in the process's own table; a handle of the global table
is that value with `HANDLE_OBFUSCATOR` xored in. The entries after `last` are memory that nothing
has written yet (`junk`).

A pointer to an entry is modelled as its `Slot`: the table and the index. Reading or writing
`table->entries[index]` with an index outside the table's allocated memory is the fault
`outOfBounds`, a table that is not there is `nullPointer`, and a failed `assert` is `assertion`.
The object's own `close_handle` operation is a parameter, as is the contents of fresh memory;
allocations succeed. The reference counts of the objects and the counters of their types are left
out.
-/

import Mathlib

namespace FreeWindows.Handles

open Function List

/-- `obj_handle_t`. -/
abbrev Handle := BitVec 32

/-- `struct handle_entry`; no object is the null pointer. -/
structure HandleEntry (Object : Type) where
  ptr : Option Object
  access : BitVec 32
deriving DecidableEq, Repr

/-- What ends the server instead of a reply. -/
inductive Fault
  | outOfBounds
  | nullPointer
  | assertion
deriving DecidableEq, Repr

inductive Status
  | success
  | invalidHandle
  | handleNotClosable
  | insufficientResources
  | processIsTerminating
deriving DecidableEq, Repr

def reservedShift : Nat := 26

/-- `HANDLE_FLAG_INHERIT << RESERVED_SHIFT`. -/
def reservedInherit : BitVec 32 := 1#32 <<< reservedShift

/-- `HANDLE_FLAG_PROTECT_FROM_CLOSE << RESERVED_SHIFT`. -/
def reservedCloseProtect : BitVec 32 := 2#32 <<< reservedShift

def reservedAll : BitVec 32 := reservedInherit ||| reservedCloseProtect

def minHandleEntries : Nat := 32

def maxHandleEntries : Nat := 0x00ffffff

/-! ### Handles and indices -/

def indexToHandle (index : Nat) : Handle := BitVec.ofNat 32 (index + 1) <<< 2

def handleToIndex (handle : Handle) : Int := (handle >>> 2).toNat - 1

def handleObfuscator : Handle := 0x544a4def#32

def handleIsGlobal (handle : Handle) : Bool :=
  (handle ^^^ handleObfuscator).toNat ≤ maxHandleEntries <<< 2

def handleLocalToGlobal (handle : Handle) : Handle :=
  if handle = 0 then 0 else handle ^^^ handleObfuscator

def handleGlobalToLocal (handle : Handle) : Handle := handle ^^^ handleObfuscator

/-! ### One table -/

section Table

variable {Object : Type}

/-- The object pointer at an index. -/
def ptrAt (entries : List (HandleEntry Object)) (index : Nat) : Option Object :=
  entries[index]?.bind HandleEntry.ptr

/-- `struct handle_table`: `count` is the number of `entries`. The fields that are facts say that
the three cursors stay inside the allocated memory, and what `free` is for. -/
structure HandleTable (Object : Type) where
  entries : List (HandleEntry Object)
  last : Int
  free : Nat
  last_ge : -1 ≤ last
  last_lt : last < entries.length
  size_pos : 0 < entries.length
  size_le : entries.length ≤ maxHandleEntries
  free_le : free ≤ last + 1
  used : ∀ index < free, (ptrAt entries index).isSome

/-- The number of allocated entries. -/
def HandleTable.count (table : HandleTable Object) : Nat := table.entries.length

def allocHandleTable (junk : Nat → HandleEntry Object) (count : Nat)
    (bound : count ≤ maxHandleEntries) : HandleTable Object where
  entries := (List.range (max count minHandleEntries)).map junk
  last := -1
  free := 0
  last_ge := Int.le_refl _
  last_lt := by
    rw [length_map, length_range]
    omega
  size_pos := by
    rw [length_map, length_range]
    exact lt_of_lt_of_le (by decide : 0 < minHandleEntries) (Nat.le_max_right ..)
  size_le := by
    rw [length_map, length_range]
    exact Nat.max_le.mpr ⟨bound, by decide⟩
  free_le := by decide
  used := nofun

/-- The loop of `alloc_entry`: the first of the `remaining` entries from `index` on that is not in
use, and the index after them when all are. -/
def scanFree (entries : List (HandleEntry Object)) : (remaining index : Nat) → Nat
  | 0, index => index
  | remaining + 1, index =>
    if (ptrAt entries index).isNone then index else scanFree entries remaining (index + 1)

section Entries

variable (entries : List (HandleEntry Object))

theorem ptrAt_set {index : Nat} (entry : HandleEntry Object) (inside : index < entries.length)
    (other : Nat) :
    ptrAt (entries.set index entry) other = if other = index then entry.ptr else ptrAt entries other := by
  unfold ptrAt
  rw [getElem?_set]
  split_ifs with same different <;> first | omega | simp [*]

theorem scanFree_le (remaining index : Nat) : scanFree entries remaining index ≤ index + remaining := by
  fun_induction scanFree entries remaining index with
  | case1 | case2 => omega
  | case3 _ _ _ ih => omega

theorem scanFree_passed (remaining index : Nat) :
    ∀ other, index ≤ other → other < scanFree entries remaining index →
      (ptrAt entries other).isSome := by
  fun_induction scanFree entries remaining index with
  | case1 | case2 => omega
  | case3 remaining index taken ih =>
    intro other after before
    rcases Nat.eq_or_lt_of_le after with rfl | later
    · simpa [Option.isNone_iff_eq_none, Option.isSome_iff_ne_none] using taken
    · exact ih other later before

/-- The memory after `grow_handle_table`. -/
def grownEntries (junk : Nat → HandleEntry Object) (entries : List (HandleEntry Object)) :
    List (HandleEntry Object) :=
  entries ++ (List.range (min (entries.length * 2) maxHandleEntries - entries.length)).map junk

/-- The index after the last one in use, at most `limit`: the loop of `shrink_handle_table`. -/
def lastUsed (entries : List (HandleEntry Object)) : (limit : Nat) → Nat
  | 0 => 0
  | limit + 1 => if (ptrAt entries limit).isSome then limit + 1 else lastUsed entries limit

theorem lastUsed_le (limit : Nat) : lastUsed entries limit ≤ limit := by
  fun_induction lastUsed entries limit with
  | case1 | case2 => omega
  | case3 _ _ ih => omega

end Entries

variable {entries : List (HandleEntry Object)}

/-- Entries in use from the first on are kept. -/
theorem le_lastUsed {limit free : Nat} (le : free ≤ limit)
    (used : ∀ index < free, (ptrAt entries index).isSome) : free ≤ lastUsed entries limit := by
  fun_induction lastUsed entries limit with
  | case1 | case2 => exact le
  | case3 limit unused ih =>
    refine ih (Nat.le_of_lt_succ (Nat.lt_of_le_of_ne le ?_))
    rintro rfl
    exact unused (used limit (Nat.lt_succ_self limit))

/-- The memory after the `realloc` of `shrink_handle_table`, `limit` being `last + 1`. -/
def shrunkEntries (entries : List (HandleEntry Object)) (limit : Nat) :
    List (HandleEntry Object) :=
  if (limit : Int) - 1 ≥ (entries.length / 4 : Nat) ∨ entries.length < minHandleEntries * 2 then
    entries
  else entries.take (entries.length / 2)

theorem shrunkEntries_leading (entries : List (HandleEntry Object)) (limit : Nat) :
    shrunkEntries entries limit <+: entries := by
  unfold shrunkEntries
  split
  · exact prefix_refl _
  · exact take_prefix _ _

theorem le_length_shrunkEntries {limit : Nat} (le : limit ≤ entries.length) :
    limit ≤ (shrunkEntries entries limit).length := by
  unfold shrunkEntries
  split
  · exact le
  · rw [length_take]
    omega

theorem length_shrunkEntries_pos {limit : Nat} (pos : 0 < entries.length) :
    0 < (shrunkEntries entries limit).length := by
  unfold shrunkEntries
  split
  · exact pos
  · next large =>
    have : minHandleEntries = 32 := rfl
    rw [length_take]
    omega

theorem ptrAt_of_leading {entries' : List (HandleEntry Object)} (initial : entries <+: entries')
    {index : Nat} (inside : index < entries.length) : ptrAt entries' index = ptrAt entries index := by
  obtain ⟨rest, rfl⟩ := initial
  unfold ptrAt
  rw [getElem?_append_left inside]

/-- `shrink_handle_table`. -/
def HandleTable.shrink (table : HandleTable Object) : HandleTable Object :=
  let limit := lastUsed table.entries (table.last + 1).toNat
  have limit_le : limit ≤ (table.last + 1).toNat := lastUsed_le _ _
  have inside : limit ≤ (shrunkEntries table.entries limit).length :=
    le_length_shrunkEntries (by have := table.last_lt; omega)
  have free_le : table.free ≤ limit :=
    le_lastUsed (by have := table.free_le; omega) table.used
  { entries := shrunkEntries table.entries limit
    last := limit - 1
    free := table.free
    last_ge := by omega
    last_lt := by omega
    size_pos := length_shrunkEntries_pos table.size_pos
    size_le := Nat.le_trans (shrunkEntries_leading _ _).length_le table.size_le
    free_le := by omega
    used := fun index lt => by
      rw [← ptrAt_of_leading (shrunkEntries_leading _ _) (by omega)]
      exact table.used index lt }

/-- `entries[index].ptr = NULL` and the lowering of `free` in `close_handle`. -/
def HandleTable.clearEntry (table : HandleTable Object) (index : Nat)
    (inside : index < table.entries.length) : HandleTable Object where
  entries := table.entries.set index { table.entries[index] with ptr := none }
  last := table.last
  free := min table.free index
  last_ge := table.last_ge
  last_lt := by
    rw [length_set]
    exact table.last_lt
  size_pos := by
    rw [length_set]
    exact table.size_pos
  size_le := by
    rw [length_set]
    exact table.size_le
  free_le := by
    have := table.free_le
    omega
  used := fun other lt => by
    rw [ptrAt_set _ _ inside, if_neg (by omega)]
    exact table.used other (by omega)

/-- `entries[index] = entry` with an object in the entry, and the setting of `last` and `free`. -/
def HandleTable.putEntry (table : HandleTable Object) (index : Nat) (entry : HandleEntry Object)
    (free : Nat) (inside : index < table.entries.length) (object : entry.ptr.isSome)
    (free_le : (free : Int) ≤ max table.last index + 1)
    (used : ∀ other < free, other ≠ index → (ptrAt table.entries other).isSome) :
    HandleTable Object where
  entries := table.entries.set index entry
  last := max table.last index
  free := free
  last_ge := by
    omega
  last_lt := by
    have := table.last_lt
    rw [length_set]
    omega
  size_pos := by
    rw [length_set]
    exact table.size_pos
  size_le := by
    rw [length_set]
    exact table.size_le
  free_le := free_le
  used := fun other lt => by
    rw [ptrAt_set _ _ inside]
    split
    · exact object
    · exact used other lt ‹_›

/-- The `realloc` of `grow_handle_table`. -/
def HandleTable.grow (junk : Nat → HandleEntry Object) (table : HandleTable Object) :
    HandleTable Object :=
  { table with
    entries := grownEntries junk table.entries
    last_lt := by
      have := table.last_lt
      rw [grownEntries, length_append]
      omega
    size_pos := by
      rw [grownEntries, length_append]
      exact Nat.add_pos_left table.size_pos _
    size_le := by
      have := table.size_le
      rw [grownEntries, length_append, length_map, length_range]
      omega
    used := fun index lt => by
      have := table.free_le
      have := table.last_lt
      rw [grownEntries, ptrAt_of_leading (prefix_append _ _) (by omega)]
      exact table.used index lt }

theorem HandleTable.grow_leading (junk : Nat → HandleEntry Object) (table : HandleTable Object) :
    table.entries <+: (table.grow junk).entries :=
  prefix_append _ _

/-- Where `alloc_entry` puts the next handle. -/
def HandleTable.nextIndex (table : HandleTable Object) : Nat :=
  scanFree table.entries ((table.last + 1).toNat - table.free) table.free

theorem HandleTable.nextIndex_le (table : HandleTable Object) :
    (table.nextIndex : Int) ≤ table.last + 1 := by
  have scanned := scanFree_le table.entries ((table.last + 1).toNat - table.free) table.free
  have := table.free_le
  unfold nextIndex
  omega

theorem HandleTable.used_nextIndex (table : HandleTable Object) :
    ∀ index < table.nextIndex, (ptrAt table.entries index).isSome := by
  intro index before
  by_cases low : index < table.free
  · exact table.used index low
  · exact scanFree_passed _ _ _ index (Nat.le_of_not_lt low) before

/-- `alloc_entry`: the new entry is put at the first index that is not in use, in memory that is
allocated first when the table is full. -/
def allocEntry (junk : Nat → HandleEntry Object) (table : HandleTable Object) (obj : Object)
    (access : BitVec 32) : Except Status (HandleTable Object × Handle) :=
  let index := table.nextIndex
  if inside : index < table.entries.length then
    .ok (table.putEntry index ⟨some obj, access⟩ (index + 1) inside rfl (by omega)
      fun other lt different => table.used_nextIndex other (by omega), indexToHandle index)
  else
    let grown := table.grow junk
    if full : grown.entries.length = table.entries.length then .error .insufficientResources
    else
      have longer : table.entries.length < grown.entries.length := by
        have : table.entries.length ≤ grown.entries.length :=
          (table.grow_leading junk).length_le
        omega
      have index_le := table.nextIndex_le
      have last_lt := table.last_lt
      .ok (grown.putEntry index ⟨some obj, access⟩ (index + 1) (by omega) rfl (by omega)
        fun other lt different => by
          rw [ptrAt_of_leading (table.grow_leading junk) (by omega)]
          exact table.used_nextIndex other (by omega), indexToHandle index)

end Table

/-! ### The tables of the server -/

section Server

variable {Object : Type}

/-- Which table a `struct handle_table *` points to. -/
inductive TableRef
  | process (pid : Nat)
  | global
deriving DecidableEq, Repr

/-- Where a `struct handle_entry *` points to. -/
structure Slot where
  table : TableRef
  index : Nat
deriving DecidableEq, Repr

/-- The tables of the processes, with none after `close_process_handles`, the global one, and the
`handle_count` of each object. -/
structure Server (Object : Type) where
  processes : Nat → Option (HandleTable Object)
  globalTable : Option (HandleTable Object)
  handleCount : Object → Nat

def Server.table (s : Server Object) : TableRef → Option (HandleTable Object)
  | .process pid => s.processes pid
  | .global => s.globalTable

def Server.setTable (s : Server Object) (ref : TableRef) (table : HandleTable Object) :
    Server Object :=
  match ref with
  | .process pid => { s with processes := update s.processes pid (some table) }
  | .global => { s with globalTable := some table }

/-- The entry that `get_handle` found: where it is, and what is in it. -/
structure Found (Object : Type) where
  slot : Slot
  ptr : Object
  access : BitVec 32
deriving DecidableEq, Repr

/-- The entry of a table at an index that is not negative and not after `last`. -/
def HandleTable.lookup (table : HandleTable Object) (index : Int) :
    Option (Object × BitVec 32) :=
  if negative : index < 0 then none
  else if after : index > table.last then none
  else
    have := table.last_lt
    let entry := table.entries.get ⟨index.toNat, by omega⟩
    entry.ptr.map fun obj => (obj, entry.access)

/-- The table that a handle belongs to. -/
def tableOf (pid : Nat) (handle : Handle) : TableRef :=
  if handleIsGlobal handle then .global else .process pid

/-- The handle without the obfuscation. -/
def plainHandle (handle : Handle) : Handle :=
  if handleIsGlobal handle then handleGlobalToLocal handle else handle

def Server.getHandle (s : Server Object) (pid : Nat) (handle : Handle) : Option (Found Object) :=
  (s.table (tableOf pid handle)).bind fun table =>
    let index := handleToIndex (plainHandle handle)
    (table.lookup index).map fun (obj, access) =>
      ⟨⟨tableOf pid handle, index.toNat⟩, obj, access⟩

variable [DecidableEq Object]

def Server.grabObjectForHandle (s : Server Object) (obj : Object) : Server Object :=
  { s with handleCount := update s.handleCount obj (s.handleCount obj + 1) }

def Server.releaseObjectFromHandle (s : Server Object) (obj : Object) :
    Except Fault (Server Object) :=
  if s.handleCount obj = 0 then .error .assertion
  else .ok { s with handleCount := update s.handleCount obj (s.handleCount obj - 1) }

/-- The object's `close_handle` operation: whether the object lets the handle be closed. -/
abbrev CloseOp (Object : Type) := Object → Nat → Handle → Bool

/-- The end of `close_handle`: `index` is the one of the handle as the caller gave it. -/
def clearSlot (table : HandleTable Object) (index : Int) : Except Fault (HandleTable Object) :=
  if inside : 0 ≤ index ∧ index < table.entries.length then
    let cleared := table.clearEntry index.toNat (by omega)
    .ok (if index = table.last then cleared.shrink else cleared)
  else .error .outOfBounds

def Server.closeHandle (closeOp : CloseOp Object) (s : Server Object) (pid : Nat)
    (handle : Handle) : Except Fault (Status × Server Object) :=
  let index := handleToIndex handle
  match s.getHandle pid handle with
  | none => .ok (.invalidHandle, s)
  | some entry =>
    if entry.access &&& reservedCloseProtect ≠ 0 then .ok (.handleNotClosable, s)
    else if !closeOp entry.ptr pid handle then .ok (.handleNotClosable, s)
    else
      match s.table (tableOf pid handle) with
      | none => .error .nullPointer
      | some table => do
        let table ← clearSlot table index
        let s ← (s.setTable (tableOf pid handle) table).releaseObjectFromHandle entry.ptr
        return (.success, s)

/-! ### Inheriting handles -/

/-- The end of `inherit_handle`: the entry is written at `index` of the new table, unless an object
is there. -/
def inheritEntry (s : Server Object) (dst : HandleTable Object) (index : Int) (src : Found Object) :
    Except Fault (Server Object × HandleTable Object) :=
  if inside : 0 ≤ index ∧ index < dst.entries.length then
    if (ptrAt dst.entries index.toNat).isSome then .ok (s, dst)
    else
      .ok (s.grabObjectForHandle src.ptr,
        dst.putEntry index.toNat ⟨some src.ptr, src.access⟩ dst.free (by omega) rfl
          (by have := dst.free_le; omega) fun other lt _ => dst.used other lt)
  else .error .outOfBounds

def Server.inheritHandle (s : Server Object) (parent : Nat) (handle : Handle)
    (dst : HandleTable Object) : Except Fault (Server Object × HandleTable Object) :=
  match s.getHandle parent handle with
  | none => .ok (s, dst)
  | some src =>
    if src.access &&& reservedInherit = 0 then .ok (s, dst)
    else inheritEntry s dst (handleToIndex handle) src

/-- The handles of a list, one after the other. -/
def Server.inheritHandles (s : Server Object) (parent : Nat) (dst : HandleTable Object) :
    List Handle → Except Fault (Server Object × HandleTable Object)
  | [] => .ok (s, dst)
  | handle :: rest => do
    let (s, dst) ← s.inheritHandle parent handle dst
    s.inheritHandles parent dst rest

/-- An entry of the copy of a whole table. -/
def HandleEntry.inherited (entry : HandleEntry Object) : HandleEntry Object :=
  if entry.access &&& reservedInherit = 0 then { entry with ptr := none } else entry

/-- The `memset` of `copy_handle_table` for a list of handles. -/
def zeroedTable (junk : Nat → HandleEntry Object) (parent : HandleTable Object) :
    HandleTable Object :=
  let table := allocHandleTable junk parent.count parent.size_le
  { table with
    entries := List.replicate parent.count ⟨none, 0⟩ ++ table.entries.drop parent.count
    last_lt := by
      have := table.last_lt
      simp only [length_append, length_replicate, length_drop]
      omega
    size_pos := by
      rw [length_append, length_replicate]
      exact Nat.add_pos_left parent.size_pos _
    size_le := by
      have := table.size_le
      have := parent.size_le
      simp only [length_append, length_replicate, length_drop, HandleTable.count]
      omega
    used := nofun }

/-- The `memcpy` of `copy_handle_table` for all handles, and the loop after it. -/
def copiedTable (junk : Nat → HandleEntry Object) (parent : HandleTable Object) :
    HandleTable Object :=
  let table := allocHandleTable junk parent.count parent.size_le
  let copied := (parent.entries.take (parent.last + 1).toNat).map HandleEntry.inherited
  { table with
    entries := copied ++ table.entries.drop copied.length
    last := parent.last
    last_ge := parent.last_ge
    last_lt := by
      have := parent.last_lt
      simp only [copied, length_append, length_map, length_take]
      omega
    size_pos := by
      have := table.size_pos
      rw [length_append, length_drop]
      omega
    size_le := by
      have := table.size_le
      have := parent.size_le
      simp only [copied, length_append, length_map, length_take, length_drop]
      omega
    free_le := by
      have := parent.last_ge
      simp only [table, allocHandleTable]
      omega
    used := nofun }

/-- `copy_handle_table`: the listed handles and the three standard ones, or all of them. -/
def Server.copyHandleTable (junk : Nat → HandleEntry Object) (s : Server Object) (parent : Nat)
    (handles : Option (List Handle × List Handle)) :
    Except Fault (Server Object × HandleTable Object) :=
  match s.processes parent, handles with
  | none, _ => .error .assertion
  | some parentTable, some (handles, stdHandles) => do
    let (s, table) ← s.inheritHandles parent (zeroedTable junk parentTable) (handles ++ stdHandles)
    return (s, table.shrink)
  | some parentTable, none =>
    let table := copiedTable junk parentTable
    let grabbed := table.entries.take (table.last + 1).toNat |>.filterMap HandleEntry.ptr
    .ok (grabbed.foldl Server.grabObjectForHandle s, table.shrink)

/-! ### Allocating handles -/

def Server.allocHandleEntry (junk : Nat → HandleEntry Object) (s : Server Object) (pid : Nat)
    (obj : Object) (access : BitVec 32) (inherit : Bool) : Except Status (Server Object × Handle) :=
  match s.processes pid with
  | none => .error .processIsTerminating
  | some table => do
    let access := if inherit then access ||| reservedInherit else access
    let (table, handle) ← allocEntry junk table obj access
    return ((s.setTable (.process pid) table).grabObjectForHandle obj, handle)

/-- `alloc_global_handle_no_access_check`, which makes the global table when there is none. -/
def Server.allocGlobalHandle (junk : Nat → HandleEntry Object) (s : Server Object) (obj : Object)
    (access : BitVec 32) : Except Status (Server Object × Handle) := do
  let table := s.globalTable.getD (allocHandleTable junk 0 (Nat.zero_le _))
  let (table, handle) ← allocEntry junk table obj access
  return ((s.setTable .global table).grabObjectForHandle obj, handleLocalToGlobal handle)

end Server

end FreeWindows.Handles
