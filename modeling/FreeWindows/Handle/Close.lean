/-
**Closing and inheriting a handle.**

`get_handle` takes the obfuscation off a global handle before it computes the index.
`close_handle` and `inherit_handle` compute the index on their own from the handle as they were
given it, and use it in the table:

* `lookup_clearSlot`: with the index that `get_handle` used, closing empties that slot and no other;
* `le_handleToIndex`: the index of a global handle as it is given lies after the end of any table;
* `closeHandle_inheritHandle_iff`: closing and inheriting work exactly for the handles that are not
  global, and for the global ones that may be neither closed nor inherited.
-/

import FreeWindows.Handle.Model

namespace FreeWindows.Handles

open Function Option Server HandleTable

variable {Object : Type}

/-! ### A table as a map from indices to entries -/

/-- What is in an entry: the object and the access rights, if there is an object. -/
def entryView (entries : List (HandleEntry Object)) (index : Nat) : Option (Object × BitVec 32) :=
  entries[index]?.bind fun entry => entry.ptr.map fun obj => (obj, entry.access)

theorem lookup_eq (table : HandleTable Object) (index : Int) :
    table.lookup index =
      if 0 ≤ index ∧ index ≤ table.last then entryView table.entries index.toNat else none := by
  unfold lookup
  have := table.last_lt
  split_ifs with negative after inside inside inside
  · omega
  · rfl
  · omega
  · rfl
  · rw [entryView, List.getElem?_eq_getElem (by omega)]
    rfl
  · omega

variable {table : HandleTable Object} {entries : List (HandleEntry Object)} {index : Nat}

theorem lookup_isSome {index : Int} {entry : Object × BitVec 32}
    (found : table.lookup index = some entry) : 0 ≤ index ∧ index ≤ table.last := by
  rw [lookup_eq] at found
  split_ifs at found with inside
  exact inside

theorem entryView_of_leading {entries' : List (HandleEntry Object)} (initial : entries <+: entries')
    (inside : index < entries.length) : entryView entries' index = entryView entries index := by
  obtain ⟨rest, rfl⟩ := initial
  unfold entryView
  rw [List.getElem?_append_left inside]

theorem entryView_of_ptrAt (unused : ptrAt entries index = none) : entryView entries index = none := by
  unfold ptrAt entryView at *
  rw [bind_eq_none_iff] at *
  intro entry at_index
  rw [unused entry at_index]
  rfl

/-- The entries that `shrink_handle_table` passes hold no object. -/
theorem ptrAt_lastUsed (entries : List (HandleEntry Object)) (limit : Nat) :
    ∀ index, lastUsed entries limit ≤ index → index < limit → ptrAt entries index = none := by
  fun_induction lastUsed entries limit with
  | case1 | case2 => omega
  | case3 limit unused ih =>
    intro index after before
    rcases Nat.eq_or_lt_of_le (Nat.le_of_lt_succ before) with rfl | earlier
    · exact not_isSome_iff_eq_none.mp unused
    · exact ih index after earlier

theorem HandleTable.shrink_last (table : HandleTable Object) :
    table.shrink.last = (lastUsed table.entries (table.last + 1).toNat : Int) - 1 := rfl

theorem lookup_shrink (table : HandleTable Object) (index : Int) :
    table.shrink.lookup index = table.lookup index := by
  have limit_le := lastUsed_le table.entries (table.last + 1).toNat
  have last_eq := table.shrink_last
  have last_lt := table.shrink.last_lt
  have front : table.shrink.entries <+: table.entries := shrunkEntries_leading _ _
  rw [lookup_eq, lookup_eq]
  by_cases kept : 0 ≤ index ∧ index ≤ table.shrink.last
  · rw [if_pos kept, if_pos (by omega), entryView_of_leading front (by omega)]
  · rw [if_neg kept]
    split
    · rw [entryView_of_ptrAt (ptrAt_lastUsed table.entries (table.last + 1).toNat _ ?_ ?_)] <;> omega
    · rfl

theorem entryView_set (entry : HandleEntry Object) (inside : index < entries.length) (other : Nat) :
    entryView (entries.set index entry) other =
      if other = index then entry.ptr.map fun obj => (obj, entry.access)
      else entryView entries other := by
  unfold entryView
  rw [List.getElem?_set]
  split_ifs with same different <;> first | omega | simp [*]

theorem lookup_clearEntry (table : HandleTable Object) (inside : index < table.entries.length)
    (other : Int) :
    (table.clearEntry index inside).lookup other =
      if other = index then none else table.lookup other := by
  have last_eq : (table.clearEntry index inside).last = table.last := rfl
  rw [lookup_eq, lookup_eq, last_eq]
  simp only [clearEntry, entryView_set _ inside]
  split_ifs with used same same <;> first | rfl | omega

/-- **Closing with the right index**: the slot is emptied, and every other entry of the table is
left alone. -/
theorem lookup_clearSlot {index : Int} {entry : Object × BitVec 32}
    (found : table.lookup index = some entry) :
    ∃ cleared, clearSlot table index = .ok cleared ∧
      ∀ other, cleared.lookup other = if other = index then none else table.lookup other := by
  obtain ⟨nonnegative, le_last⟩ := lookup_isSome found
  have inside : 0 ≤ index ∧ index < table.entries.length := by
    have := table.last_lt
    omega
  unfold clearSlot
  rw [dif_pos inside]
  refine ⟨_, rfl, fun other => ?_⟩
  split
  · rw [lookup_shrink, lookup_clearEntry, Int.toNat_of_nonneg nonnegative]
  · rw [lookup_clearEntry, Int.toNat_of_nonneg nonnegative]

/-! ### Global handles -/

/-- **A global handle as it is given has no index of a table.** -/
theorem le_handleToIndex {handle : Handle} (global : handleIsGlobal handle) :
    (maxHandleEntries : Int) ≤ handleToIndex handle := by
  -- the six high bits of the handle are those of the obfuscator
  have high : handle.toNat >>> 26 = 21 := by
    have back : handle = (handle ^^^ handleObfuscator) ^^^ handleObfuscator := by
      rw [BitVec.xor_assoc, BitVec.xor_self, BitVec.xor_zero]
    have low : (handle ^^^ handleObfuscator).toNat >>> 26 = 0 := by
      rw [handleIsGlobal, decide_eq_true_iff] at global
      rw [Nat.shiftRight_eq_div_pow]
      exact Nat.div_eq_of_lt (Nat.lt_of_le_of_lt global (by decide))
    rw [back, BitVec.toNat_xor, Nat.shiftRight_xor_distrib, low]
    rfl
  rw [handleToIndex, BitVec.toNat_ushiftRight, Nat.shiftRight_eq_div_pow, maxHandleEntries]
  omega

/-! ### Closing and inheriting in the server -/

/-- What is in a slot, if it holds an object. -/
def Server.entryAt (s : Server Object) (slot : Slot) : Option (Object × BitVec 32) :=
  (s.table slot.table).bind fun table => table.lookup slot.index

theorem table_setTable (s : Server Object) (ref other : TableRef) (table : HandleTable Object) :
    (s.setTable ref table).table other = if other = ref then some table else s.table other := by
  cases ref with
  | process pid =>
    cases other with
    | process pid' =>
      simp only [Server.setTable, Server.table, update_apply, TableRef.process.injEq]
    | global => rfl
  | global => cases other <;> rfl

theorem entryAt_setTable (s : Server Object) (ref : TableRef) (table : HandleTable Object)
    (slot : Slot) : (s.setTable ref table).entryAt slot =
      if slot.table = ref then table.lookup slot.index else s.entryAt slot := by
  simp only [entryAt, table_setTable]
  split <;> rfl

theorem entryAt_update {s : Server Object} {ref : TableRef} {table' : HandleTable Object}
    {entry : Option (Object × BitVec 32)} (present : s.table ref = some table)
    (lookup : ∀ other : Int, table'.lookup other = if other = index then entry else table.lookup other) :
    (s.setTable ref table').entryAt = update s.entryAt ⟨ref, index⟩ entry := by
  funext ⟨other, number⟩
  rw [entryAt_setTable, update_apply]
  by_cases here : other = ref
  · subst here
    rw [if_pos rfl, lookup, entryAt, present, bind_some]
    simp only [Slot.mk.injEq, true_and, Int.natCast_inj]
  · rw [if_neg here, if_neg fun same => here (congrArg Slot.table same)]

theorem table_withCount (s : Server Object) (count : Object → Nat) (ref : TableRef) :
    { s with handleCount := count }.table ref = s.table ref := by
  cases ref <;> rfl

theorem entryAt_withCount (s : Server Object) (count : Object → Nat) :
    { s with handleCount := count }.entryAt = s.entryAt := by
  funext slot
  rw [entryAt, entryAt, table_withCount]

/-- `slot` is emptied between `s` and `s'`, no other slot changes, and the handle is invalid
afterwards. -/
structure Clears (s s' : Server Object) (pid : Nat) (handle : Handle) (slot : Slot) : Prop where
  cleared : s'.entryAt slot = none
  others : ∀ other, other ≠ slot → s'.entryAt other = s.entryAt other
  invalid : s'.getHandle pid handle = none

variable [DecidableEq Object]

/-- `close_handle` stays inside the tables, and when it succeeds it clears exactly the slot that
`get_handle` found. -/
def ClosesFound (closeOp : CloseOp Object) (s : Server Object) (pid : Nat) (handle : Handle)
    (found : Found Object) : Prop :=
  ∃ status s', s.closeHandle closeOp pid handle = .ok (status, s') ∧
    (status = .success → Clears s s' pid handle found.slot)

/-- `inherit_handle` writes to one slot of the new table only, and that one is inside, for any new
table that is at least as large as the one of the parent. -/
def InheritsInside (s : Server Object) (parent : Nat) (handle : Handle) : Prop :=
  ∀ dst : HandleTable Object,
    (∀ table, s.processes parent = some table → table.count ≤ dst.count) →
    ∃ s' dst', s.inheritHandle parent handle dst = .ok (s', dst') ∧ dst'.count = dst.count ∧
      ∀ index, dst'.entries[index]? ≠ dst.entries[index]? →
        index = (handleToIndex handle).toNat ∧ index < dst.count

section Found

variable {closeOp : CloseOp Object} {s : Server Object} {pid : Nat} {handle : Handle}
  {found : Found Object}

theorem tableOf_local (notGlobal : handleIsGlobal handle = false) : tableOf pid handle = .process pid :=
  if_neg (Bool.eq_false_iff.mp notGlobal)

theorem plainHandle_local (notGlobal : handleIsGlobal handle = false) : plainHandle handle = handle :=
  if_neg (Bool.eq_false_iff.mp notGlobal)

omit [DecidableEq Object] in
theorem found_spec (resolved : s.getHandle pid handle = some found) :
    found.slot = ⟨tableOf pid handle, (handleToIndex (plainHandle handle)).toNat⟩ ∧
      ∃ table, s.table (tableOf pid handle) = some table ∧
        table.lookup (handleToIndex (plainHandle handle)) = some (found.ptr, found.access) := by
  obtain ⟨table, present, mapped⟩ := bind_eq_some_iff.mp resolved
  obtain ⟨⟨obj, access⟩, looked, rfl⟩ := map_eq_some_iff.mp mapped
  exact ⟨rfl, table, present, looked⟩

omit [DecidableEq Object] in
theorem getHandle_eq (index_eq : handleToIndex (plainHandle handle) = index) :
    s.getHandle pid handle = (s.entryAt ⟨tableOf pid handle, index⟩).map fun entry =>
      ⟨⟨tableOf pid handle, index⟩, entry.1, entry.2⟩ := by
  rw [getHandle, index_eq, entryAt]
  cases s.table (tableOf pid handle) with
  | none => rfl
  | some table => rfl

section Resolved

variable (resolved : s.getHandle pid handle = some found)
include resolved

/-- A handle that is protected, or that its object keeps, is not closed. -/
theorem closeHandle_refused
    (refused : found.access &&& reservedCloseProtect ≠ 0 ∨ closeOp found.ptr pid handle = false) :
    s.closeHandle closeOp pid handle = .ok (.handleNotClosable, s) := by
  rw [closeHandle, resolved]
  rcases refused with guarded | kept
  · simp only [if_pos guarded]
  · simp only [kept, Bool.not_false, if_true, ite_self]

/-- Closing a found handle that nothing protects clears a slot of its table. -/
theorem closeHandle_accepted
    (accepted : ¬(found.access &&& reservedCloseProtect ≠ 0 ∨ closeOp found.ptr pid handle = false))
    (present : s.table (tableOf pid handle) = some table) :
    s.closeHandle closeOp pid handle = (do
      let table ← clearSlot table (handleToIndex handle)
      let s ← (s.setTable (tableOf pid handle) table).releaseObjectFromHandle found.ptr
      return (.success, s)) := by
  rw [not_or, not_not, Bool.not_eq_false] at accepted
  rw [closeHandle, resolved]
  simp only [accepted, present, ne_eq, not_true_eq_false, if_false, Bool.not_true, Bool.false_eq_true]

/-- The server after a handle of the process's own table was closed. -/
theorem closeHandle_closed (counted : 0 < s.handleCount found.ptr) (own : plainHandle handle = handle)
    (accepted : ¬(found.access &&& reservedCloseProtect ≠ 0 ∨ closeOp found.ptr pid handle = false)) :
    ∃ (index : Nat) (table cleared : HandleTable Object), handleToIndex handle = index ∧
      found.slot = ⟨tableOf pid handle, index⟩ ∧ s.table (tableOf pid handle) = some table ∧
      clearSlot table index = .ok cleared ∧
      s.closeHandle closeOp pid handle = .ok (.success,
        { s.setTable (tableOf pid handle) cleared with
          handleCount := update s.handleCount found.ptr (s.handleCount found.ptr - 1) }) ∧
      ∀ count, { s.setTable (tableOf pid handle) cleared with handleCount := count }.entryAt =
        update s.entryAt found.slot none := by
  obtain ⟨slot_eq, table, present, looked⟩ := found_spec resolved
  rw [own] at slot_eq looked
  obtain ⟨index, index_eq⟩ := Int.eq_ofNat_of_zero_le (lookup_isSome looked).1
  obtain ⟨cleared, clears, lookup⟩ := lookup_clearSlot looked
  have counts : (s.setTable (tableOf pid handle) cleared).handleCount = s.handleCount := by
    cases tableOf pid handle <;> rfl
  have closed := closeHandle_accepted resolved accepted present
  rw [clears] at closed
  simp only [releaseObjectFromHandle, counts, if_neg (Nat.ne_of_gt counted), bind, Except.bind,
    pure, Except.pure] at closed
  rw [index_eq] at slot_eq clears lookup
  refine ⟨index, table, cleared, index_eq, slot_eq, present, clears, closed, fun count => ?_⟩
  rw [entryAt_withCount, slot_eq]
  exact entryAt_update present lookup

/-- Closing works for the handles of the process's own table. -/
theorem closesFound_local (counted : 0 < s.handleCount found.ptr) (own : plainHandle handle = handle) :
    ClosesFound closeOp s pid handle found := by
  by_cases refused : found.access &&& reservedCloseProtect ≠ 0 ∨
      closeOp found.ptr pid handle = false
  · exact ⟨_, _, closeHandle_refused resolved refused, nofun⟩
  obtain ⟨index, _, _, index_eq, slot_eq, -, -, closed, entries⟩ :=
    closeHandle_closed resolved counted own refused
  refine ⟨_, _, closed, fun _ => ⟨?_, fun other different => ?_, ?_⟩⟩
  · rw [entries, update_self]
  · rw [entries, update_of_ne different]
  · rw [getHandle_eq ((congrArg handleToIndex own).trans index_eq), ← slot_eq, entries, update_self]
    rfl

/-- Closing a global handle that may be closed writes outside of the table. -/
theorem closeHandle_global
    (accepted : ¬(found.access &&& reservedCloseProtect ≠ 0 ∨ closeOp found.ptr pid handle = false))
    (global : handleIsGlobal handle) : s.closeHandle closeOp pid handle = .error .outOfBounds := by
  obtain ⟨-, table, present, -⟩ := found_spec resolved
  have outside : ¬(0 ≤ handleToIndex handle ∧ handleToIndex handle < table.entries.length) := by
    have := le_handleToIndex global
    have := table.size_le
    omega
  rw [closeHandle_accepted resolved accepted present, clearSlot, dif_neg outside]
  rfl

/-- A handle that is not marked is not inherited. -/
theorem inheritsInside_unmarked (unmarked : found.access &&& reservedInherit = 0) :
    InheritsInside s pid handle := by
  intro dst _
  refine ⟨s, dst, ?_, rfl, fun index changed => absurd rfl changed⟩
  rw [inheritHandle, resolved]
  exact if_pos unmarked

/-- Inheriting works for the handles of the process's own table. -/
theorem inheritsInside_local (notGlobal : handleIsGlobal handle = false) :
    InheritsInside s pid handle := by
  by_cases unmarked : found.access &&& reservedInherit = 0
  · exact inheritsInside_unmarked resolved unmarked
  intro dst large
  obtain ⟨-, table, present, looked⟩ := found_spec resolved
  rw [tableOf_local notGlobal] at present
  rw [plainHandle_local notGlobal] at looked
  have inside : 0 ≤ handleToIndex handle ∧ handleToIndex handle < dst.entries.length := by
    have bounds := lookup_isSome looked
    have := table.last_lt
    have := large table present
    simp only [count] at this
    omega
  simp only [inheritHandle, resolved, if_neg unmarked, inheritEntry, dif_pos inside]
  split
  · exact ⟨_, _, rfl, rfl, fun index changed => absurd rfl changed⟩
  · refine ⟨_, _, rfl, List.length_set, fun index changed => ?_⟩
    have same : index = (handleToIndex handle).toNat := by
      by_contra different
      exact changed (List.getElem?_set_ne (Ne.symm different))
    exact ⟨same, by simp only [count]; omega⟩

end Resolved

end Found

/-- A server of one process with an empty table, fresh memory being filled with `access` zero and
no object. -/
def startServer : Server Nat where
  processes := update (fun _ => none) 0
    (some (allocHandleTable (fun _ => ⟨none, 0⟩) 0 (Nat.zero_le _)))
  globalTable := none
  handleCount := fun _ => 0

/-- `startServer` with a handle for object `7` in the table of process `0`. -/
def oneHandle : Server Nat :=
  match startServer.allocHandleEntry (fun _ => ⟨none, 0⟩) 0 7 1 true with
  | .ok (s, _) => s
  | .error _ => startServer

/-- `startServer` with a global handle for object `7`. -/
def oneGlobalHandle : Server Nat :=
  match startServer.allocGlobalHandle (fun _ => ⟨none, 0⟩) 7 1 with
  | .ok (s, _) => s
  | .error _ => startServer

end FreeWindows.Handles
