/-
**Handle tables over whole runs.**

Processes start, allocate and close handles, pass all of their handles on to new processes, and exit.
A table is read as a map from indices to entries (`lookup`), and the tables of the server as one map
from slots to entries (`entryAt`). What a request does to this map is said once (`Effect`,
`step_answers`); from that follow

* `Server.Sound`: the last index of a table is in use, and every object's `handle_count` is the number
  of slots that hold it;
* `getHandle_of_runs`: a handle resolves to the same entry until it is closed.
-/

import FreeWindows.Handle.Close
import FreeWindows.Lib.Counted
import FreeWindows.Lib.Run

namespace FreeWindows.Handles

open Lib Function Option Server

variable {Object : Type}

/-! ### Indices of handles -/

variable {index pid : Nat} {obj : Object} {table table' : HandleTable Object} {access : BitVec 32}
  {handle : Handle} {entry : Object × BitVec 32} {s' : Server Object}

theorem handleToIndex_indexToHandle (inside : index < maxHandleEntries) :
    handleToIndex (indexToHandle index) = index := by
  have small : (index + 1) * 4 < 2 ^ 32 := by
    unfold maxHandleEntries at inside
    omega
  rw [handleToIndex, indexToHandle, BitVec.toNat_ushiftRight, BitVec.toNat_shiftLeft,
    BitVec.toNat_ofNat, Nat.shiftRight_eq_div_pow, Nat.shiftLeft_eq]
  omega

theorem indexToHandle_own (inside : index < maxHandleEntries) :
    handleIsGlobal (indexToHandle index) = false := by
  rw [Bool.eq_false_iff]
  intro global
  have after := le_handleToIndex global
  rw [handleToIndex_indexToHandle inside] at after
  omega

/-! ### One table -/

/-- The last index of the table is in use, if there is one. -/
def HandleTable.LastInUse (table : HandleTable Object) : Prop :=
  table.last = -1 ∨ (table.lookup table.last).isSome

theorem entryView_isSome (entries : List (HandleEntry Object)) (index : Nat) :
    (entryView entries index).isSome = (ptrAt entries index).isSome := by
  unfold entryView ptrAt
  cases entries[index]? with
  | none => rfl
  | some entry => exact isSome_map

theorem lookup_grow (junk : Nat → HandleEntry Object) (table : HandleTable Object) (index : Int) :
    (table.grow junk).lookup index = table.lookup index := by
  have last_eq : (table.grow junk).last = table.last := rfl
  have := table.last_lt
  rw [lookup_eq, lookup_eq, last_eq]
  split
  · exact entryView_of_leading (table.grow_leading junk) (by omega)
  · rfl

/-- An entry is put into the table, or right behind its last one. -/
theorem lookup_putEntry {free : Nat} {entry : HandleEntry Object}
    (inside : index < table.entries.length) (object : entry.ptr.isSome)
    (free_le : (free : Int) ≤ max table.last index + 1)
    (used : ∀ other < free, other ≠ index → (ptrAt table.entries other).isSome)
    (near : (index : Int) ≤ table.last + 1) (holds : entry.ptr = some obj) (other : Int) :
    (table.putEntry index entry free inside object free_le used).lookup other =
      if other = index then some (obj, entry.access) else table.lookup other := by
  have last_eq : (table.putEntry index entry free inside object free_le used).last =
    max table.last index := rfl
  rw [lookup_eq, lookup_eq, last_eq]
  simp only [HandleTable.putEntry, entryView_set _ inside, holds, map_some]
  split_ifs with within same same <;> first | rfl | omega

/-- The scan ends at an entry that is not in use, if there is one. -/
theorem scanFree_unused (entries : List (HandleEntry Object)) (remaining index : Nat)
    (stops : scanFree entries remaining index < index + remaining) :
    ptrAt entries (scanFree entries remaining index) = none := by
  fun_induction scanFree entries remaining index with
  | case1 => omega
  | case2 remaining index unused => exact isNone_iff_eq_none.mp unused
  | case3 remaining index taken ih => exact ih (by omega)

/-- **The next index is not in use**, and all lower ones are. -/
theorem lookup_nextIndex (table : HandleTable Object) : table.lookup table.nextIndex = none := by
  rw [lookup_eq]
  split
  next within =>
    refine entryView_of_ptrAt (scanFree_unused _ _ _ ?_)
    change table.nextIndex < _
    omega
  next => rfl

/-- What `alloc_entry` does to a table. -/
structure Allocates (table table' : HandleTable Object) (entry : Object × BitVec 32) : Prop where
  lookup : ∀ other, table'.lookup other =
    if other = table.nextIndex then some entry else table.lookup other
  last : table'.last = max table.last table.nextIndex

variable {junk : Nat → HandleEntry Object}

theorem allocEntry_allocates (allocated : allocEntry junk table obj access = .ok (table', handle)) :
    Allocates table table' (obj, access) ∧ handle = indexToHandle table.nextIndex := by
  have near := table.nextIndex_le
  unfold allocEntry at allocated
  dsimp only at allocated
  split at allocated
  · cases allocated
    exact ⟨⟨fun other => lookup_putEntry _ _ _ _ near rfl other, rfl⟩, rfl⟩
  · split at allocated
    · cases allocated
    · cases allocated
      have near : (table.nextIndex : Int) ≤ (table.grow junk).last + 1 := near
      refine ⟨⟨fun other => ?_, rfl⟩, rfl⟩
      rw [← lookup_grow junk table]
      exact lookup_putEntry _ _ _ _ near rfl other

theorem Allocates.lastInUse (allocates : Allocates table table' entry) (lastInUse : table.LastInUse) :
    table'.LastInUse := by
  right
  rw [allocates.lookup, allocates.last]
  split
  · rfl
  next other =>
    have same : max table.last table.nextIndex = table.last := by omega
    rw [same]
    refine lastInUse.resolve_left ?_
    omega

/-- The loop of `shrink_handle_table` stops at an entry that is in use. -/
theorem ptrAt_lastUsed_pred (entries : List (HandleEntry Object)) (limit : Nat)
    (some : lastUsed entries limit ≠ 0) : (ptrAt entries (lastUsed entries limit - 1)).isSome := by
  fun_induction lastUsed entries limit with
  | case1 => exact absurd rfl some
  | case2 limit used => exact used
  | case3 limit unused ih => exact ih some

theorem lastInUse_shrink (table : HandleTable Object) : table.shrink.LastInUse := by
  have last_eq := table.shrink_last
  by_cases empty : lastUsed table.entries (table.last + 1).toNat = 0
  · exact .inl (by omega)
  · right
    have limit_le := lastUsed_le table.entries (table.last + 1).toNat
    rw [lookup_shrink, lookup_eq, last_eq, if_pos (by omega), entryView_isSome]
    have index_eq : ((lastUsed table.entries (table.last + 1).toNat : Int) - 1).toNat =
        lastUsed table.entries (table.last + 1).toNat - 1 := by omega
    rw [index_eq]
    exact ptrAt_lastUsed_pred _ _ empty

theorem lastInUse_clearSlot {cleared : HandleTable Object} {index : Int}
    (done : clearSlot table index = .ok cleared) (lastInUse : table.LastInUse) : cleared.LastInUse := by
  unfold clearSlot at done
  split at done
  next inside =>
    cases done
    split
    · exact lastInUse_shrink _
    next other =>
      unfold HandleTable.LastInUse
      rw [lookup_clearEntry]
      change table.last = -1 ∨ (if table.last = _ then _ else table.lookup table.last).isSome = true
      rw [if_neg (by omega)]
      exact lastInUse
  next => cases done

/-- **The copy of a whole table** has the entries that are inherited. -/
theorem lookup_copiedTable (junk : Nat → HandleEntry Object) (parent : HandleTable Object)
    (index : Int) : (copiedTable junk parent).lookup index =
      (parent.lookup index).filter fun entry => entry.2 &&& reservedInherit ≠ 0 := by
  have last_eq : (copiedTable junk parent).last = parent.last := rfl
  have last_lt := parent.last_lt
  rw [lookup_eq, lookup_eq, last_eq]
  split
  next within =>
    have inside : index.toNat < parent.entries.length := by omega
    have copied : (copiedTable junk parent).entries[index.toNat]? =
        some (parent.entries[index.toNat]).inherited := by
      unfold copiedTable
      rw [List.getElem?_append_left (by simp; omega), List.getElem?_map, List.getElem?_take,
        if_pos (by omega), List.getElem?_eq_getElem inside]
      rfl
    unfold entryView
    rw [copied, List.getElem?_eq_getElem inside]
    simp only [bind_some]
    unfold HandleEntry.inherited
    split
    next unmarked => cases parent.entries[index.toNat].ptr <;> simp [Option.filter, unmarked]
    next marked =>
      cases parent.entries[index.toNat].ptr with
      | none => rfl
      | some obj => simpa [Option.filter] using marked
  next => rfl

/-- The objects in the entries of a table, index by index. -/
def objects (table : HandleTable Object) : List (Option Object) :=
  (table.entries.take (table.last + 1).toNat).map HandleEntry.ptr

theorem objects_getElem? (table : HandleTable Object) (index : Nat) :
    (objects table)[index]?.join = (table.lookup index).map Prod.fst := by
  rw [lookup_eq, objects, List.getElem?_map, List.getElem?_take]
  by_cases within : (index : Int) ≤ table.last
  · rw [if_pos (by omega), if_pos (by omega), entryView, Int.toNat_natCast]
    cases table.entries[index]? with
    | none => rfl
    | some entry => cases same : entry.ptr <;> simp [same]
  · rw [if_neg (by omega), if_neg (by omega)]
    rfl

theorem reduceOption_objects (table : HandleTable Object) :
    (objects table).reduceOption =
      (table.entries.take (table.last + 1).toNat).filterMap HandleEntry.ptr := by
  rw [List.reduceOption, objects, List.filterMap_map]
  rfl

/-! ### The slots of all tables -/

/-- What is held in the slots. -/
def Server.held (s : Server Object) (slot : Slot) : Option Object := (s.entryAt slot).map Prod.fst

/-- The last indices are in use, and the handles of every object are counted. -/
structure Server.Sound (s : Server Object) : Prop where
  lastInUse : ∀ ref table, s.table ref = some table → table.LastInUse
  counted : Counted s.held s.handleCount

section Slots

variable {s : Server Object} {ref : TableRef} {entry : Option (Object × BitVec 32)}

theorem entryAt_process (present : s.processes pid = some table) (index : Nat) :
    s.entryAt ⟨.process pid, index⟩ = table.lookup index := by
  rw [Server.entryAt, Server.table, present]
  rfl

theorem entryAt_eq_none (s : Server Object) (missing : s.processes pid = none) (index : Nat) :
    s.entryAt ⟨.process pid, index⟩ = none := by
  rw [entryAt, table, missing]
  rfl

/-- One table changes, with a last index that is in use. -/
theorem Server.Sound.setTable (sound : s.Sound) (ref : TableRef) (count : Object → Nat)
    (lastInUse : table.LastInUse)
    (counted : Counted { s.setTable ref table with handleCount := count }.held count) :
    { s.setTable ref table with handleCount := count }.Sound := by
  refine ⟨fun other table' present => ?_, counted⟩
  rw [table_withCount, table_setTable] at present
  split at present
  · cases present
    exact lastInUse
  · exact sound.lastInUse other table' present

theorem held_found {found : Found Object} (resolved : s.getHandle pid handle = some found) :
    s.held found.slot = some found.ptr := by
  obtain ⟨slot_eq, table, present, looked⟩ := found_spec resolved
  rw [held, entryAt, slot_eq, present, bind_some,
    Int.toNat_of_nonneg (lookup_isSome looked).1, looked]
  rfl

theorem held_update {slot : Slot} (entries : s'.entryAt = update s.entryAt slot entry) :
    s'.held = update s.held slot (entry.map Prod.fst) := by
  unfold held
  rw [entries]
  exact comp_update (Option.map Prod.fst) s.entryAt slot entry

variable (own : handleIsGlobal handle = false)
include own

/-- What a handle of the process's own table resolves to. -/
theorem getHandle_local (index_eq : handleToIndex handle = index) :
    s.getHandle pid handle = (s.entryAt ⟨.process pid, index⟩).map fun entry =>
      ⟨⟨.process pid, index⟩, entry.1, entry.2⟩ := by
  rw [← tableOf_local own]
  exact getHandle_eq ((congrArg handleToIndex (plainHandle_local own)).trans index_eq)

theorem getHandle_negative (negative : handleToIndex handle < 0) : s.getHandle pid handle = none := by
  rw [getHandle, tableOf_local own, plainHandle_local own, bind_eq_none_iff]
  intro table _
  dsimp only
  rw [lookup_eq, if_neg (by omega)]
  rfl

omit own

theorem getHandle_indexToHandle (s : Server Object) (pid : Nat) (inside : index < maxHandleEntries) :
    s.getHandle pid (indexToHandle index) = (s.entryAt ⟨.process pid, index⟩).map fun entry =>
      ⟨⟨.process pid, index⟩, entry.1, entry.2⟩ :=
  getHandle_local (indexToHandle_own inside) (handleToIndex_indexToHandle inside)

/-- All indices below the next one are in use. -/
theorem getHandle_of_lt_nextIndex (present : s.processes pid = some table) (inside : index < maxHandleEntries)
    (below : index < table.nextIndex) : (s.getHandle pid (indexToHandle index)).isSome := by
  have := table.nextIndex_le
  rw [getHandle_indexToHandle s pid inside, entryAt_process present, isSome_map, lookup_eq,
    if_pos (by omega), Int.toNat_natCast, entryView_isSome]
  exact table.used_nextIndex index below

end Slots

/-! ### Requests -/

section Requests

variable [DecidableEq Object]

/-- `handle_table_destroy`: every object in the table is released. What the object's `close_handle`
operation returns does not matter here. -/
def Server.handleTableDestroy (s : Server Object) (table : HandleTable Object) :
    Except Fault (Server Object) :=
  ((table.entries.take (table.last + 1).toNat).filterMap HandleEntry.ptr).foldlM
    Server.releaseObjectFromHandle s

def Server.closeProcessHandles (s : Server Object) (pid : Nat) : Except Fault (Server Object) :=
  match s.processes pid with
  | none => .ok s
  | some table =>
    { s with processes := update s.processes pid none }.handleTableDestroy table

inductive Request (Object : Type)
  /-- a process with an empty table -/
  | start (pid : Nat)
  /-- a process with a copy of the whole table of its parent -/
  | copy (pid parent : Nat)
  | alloc (pid : Nat) (obj : Object) (access : BitVec 32) (inherit : Bool)
  | close (pid : Nat) (handle : Handle)
  | exit (pid : Nat)

/-- A request, with the contents of the memory that is allocated for it, and the `close_handle`
operation of the objects. -/
structure Action (Object : Type) where
  request : Request Object
  junk : Nat → HandleEntry Object
  closeOp : CloseOp Object

/-- The server after a request. -/
def Server.step (s : Server Object) (action : Action Object) : Except Fault (Server Object) :=
  match action.request with
  | .start pid => .ok (s.setTable (.process pid) (allocHandleTable action.junk 0 (Nat.zero_le _)))
  | .copy pid parent => do
    let (s, table) ← s.copyHandleTable action.junk parent none
    return s.setTable (.process pid) table
  | .alloc pid obj access inherit =>
    if access &&& reservedAll ≠ 0 then .error .assertion
    else match s.allocHandleEntry action.junk pid obj access inherit with
      | .ok (s, _) => .ok s
      | .error _ => .ok s
  | .close pid handle => (s.closeHandle action.closeOp pid handle).map Prod.snd
  | .exit pid => s.closeProcessHandles pid

/-- A table is made for a new process; only access rights without flags are asked for, and only
handles of the process's own table are closed. -/
def Allowed (s : Server Object) (action : Action Object) : Prop :=
  match action.request with
  | .start pid => (s.processes pid).isNone
  | .copy pid parent => (s.processes pid).isNone ∧ (s.processes parent).isSome
  | .alloc _ _ access _ => access &&& reservedAll = 0
  | .close _ handle => handleIsGlobal handle = false
  | .exit _ => True

instance (s : Server Object) (action : Action Object) : Decidable (Allowed s action) := by
  unfold Allowed
  split <;> infer_instance

/-- No tables at all. -/
def Server.initial : Server Object := ⟨fun _ => none, none, fun _ => 0⟩

/-- What a request does to the entries in the slots. -/
inductive Effect (s : Server Object) (action : Action Object) (s' : Server Object) : Prop
  | same (entries : ∀ slot, s'.entryAt slot = s.entryAt slot)
  | copy {pid parent : Nat} (request : action.request = .copy pid parent)
      (fresh : ∀ index, s.entryAt ⟨.process pid, index⟩ = none)
      (entries : ∀ slot, s'.entryAt slot =
        if slot.table = .process pid then
          (s.entryAt ⟨.process parent, slot.index⟩).filter fun entry =>
            entry.2 &&& reservedInherit ≠ 0
        else s.entryAt slot)
  | alloc {slot : Slot} {entry : Object × BitVec 32} (empty : s.entryAt slot = none)
      (entries : s'.entryAt = update s.entryAt slot (some entry))
  | close {pid : Nat} {handle : Handle} {index : Nat} (request : action.request = .close pid handle)
      (index_eq : handleToIndex handle = index)
      (closed : s.closeHandle action.closeOp pid handle = .ok (.success, s'))
      (entries : s'.entryAt = update s.entryAt ⟨.process pid, index⟩ none)
  | exit {pid : Nat} (request : action.request = .exit pid)
      (entries : ∀ slot, s'.entryAt slot =
        if slot.table = .process pid then none else s.entryAt slot)

/-- The request is answered, and the server stays sound. -/
def Answers (s : Server Object) (action : Action Object) : Prop :=
  ∃ s', s.step action = .ok s' ∧ Effect s action s' ∧ s'.Sound

variable {s : Server Object} {action : Action Object}

theorem answers_start (sound : s.Sound) (request : action.request = .start pid)
    (fresh : s.processes pid = none) : Answers s action := by
  have entries : ∀ slot, (s.setTable (.process pid)
      (allocHandleTable action.junk 0 (Nat.zero_le _))).entryAt slot = s.entryAt slot := by
    rintro ⟨ref, index⟩
    rw [entryAt_setTable]
    split
    next here =>
      cases here
      rw [lookup_eq, if_neg, entryAt_eq_none s fresh]
      change ¬(0 ≤ (index : Int) ∧ (index : Int) ≤ -1)
      omega
    next => rfl
  refine ⟨_, by rw [step, request], .same entries, sound.setTable (.process pid) s.handleCount (.inl rfl) ?_⟩
  change Counted (s.setTable (.process pid) _).held _
  rw [show held _ = s.held from funext fun slot => by rw [held, held, entries]]
  exact sound.counted

variable {inherit : Bool}

/-- **A handle is allocated**, or there is no room for it. -/
theorem answers_alloc (sound : s.Sound) (request : action.request = .alloc pid obj access inherit)
    (plain : access &&& reservedAll = 0) : Answers s action := by
  have unchanged : Effect s action s ∧ s.Sound := ⟨.same fun _ => rfl, sound⟩
  unfold Answers step
  rw [request]
  simp only [plain, ne_eq, not_true_eq_false, if_false]
  unfold allocHandleEntry
  cases present : s.processes pid with
  | none => exact ⟨s, rfl, unchanged⟩
  | some table =>
    dsimp only
    generalize (if inherit then access ||| reservedInherit else access) = access'
    cases allocated : allocEntry action.junk table obj access' with
    | error status => exact ⟨s, rfl, unchanged⟩
    | ok result =>
      obtain ⟨table', handle⟩ := result
      obtain ⟨allocates, -⟩ := allocEntry_allocates allocated
      have atSlot : s.entryAt ⟨.process pid, table.nextIndex⟩ = none :=
        (entryAt_process present _).trans (lookup_nextIndex table)
      have entries : ((s.setTable (.process pid) table').grabObjectForHandle obj).entryAt =
          update s.entryAt ⟨.process pid, table.nextIndex⟩ (some (obj, access')) :=
        (entryAt_withCount _ _).trans (entryAt_update present allocates.lookup)
      have lastInUse := allocates.lastInUse (sound.lastInUse (.process pid) table present)
      refine ⟨_, rfl, .alloc atSlot entries, sound.setTable _ _ lastInUse ?_⟩
      change Counted (held (grabObjectForHandle _ obj)) _
      rw [held_update entries]
      exact sound.counted.put (by rw [held, atSlot]; rfl) obj

/-- **A handle is closed**, or refused. -/
theorem answers_close (sound : s.Sound) (request : action.request = .close pid handle)
    (own : handleIsGlobal handle = false) : Answers s action := by
  have unchanged : Effect s action s ∧ s.Sound := ⟨.same fun _ => rfl, sound⟩
  unfold Answers step
  rw [request]
  cases resolved : s.getHandle pid handle with
  | none =>
    refine ⟨s, ?_, unchanged⟩
    simp only [closeHandle, resolved]
    rfl
  | some found =>
    by_cases refused : found.access &&& reservedCloseProtect ≠ 0 ∨
        action.closeOp found.ptr pid handle = false
    · refine ⟨s, ?_, unchanged⟩
      simp only [closeHandle_refused resolved refused]
      rfl
    have held := held_found resolved
    obtain ⟨index, table, cleared, index_eq, slot_eq, present, clears, closed, entries⟩ :=
      closeHandle_closed resolved (sound.counted.pos held) (plainHandle_local own) refused
    have lastInUse := lastInUse_clearSlot clears (sound.lastInUse _ _ present)
    refine ⟨_, by dsimp only; rw [closed]; rfl, .close request index_eq closed ?_,
      sound.setTable _ _ lastInUse ?_⟩
    · rw [entries, slot_eq, tableOf_local own]
    · rw [held_update (entries _)]
      exact sound.counted.clear held

theorem slot_injective (ref : TableRef) : Function.Injective (Slot.mk ref) := fun _ _ same =>
  congrArg Slot.index same

theorem foldl_grabObjectForHandle (s : Server Object) (objs : List Object) :
    objs.foldl grabObjectForHandle s =
      { s with handleCount := objs.foldl grab s.handleCount } := by
  induction objs generalizing s with
  | nil => rfl
  | cons obj rest ih => exact ih _

/-- **All handles are passed on** to a new process. -/
theorem answers_copy (sound : s.Sound) {parent : Nat} (request : action.request = .copy pid parent)
    (fresh : s.processes pid = none) (present : s.processes parent = some table) :
    Answers s action := by
  have empty := entryAt_eq_none s fresh
  unfold Answers step
  rw [request]
  simp only [copyHandleTable, present]
  rw [← reduceOption_objects, foldl_grabObjectForHandle]
  generalize counts : (objects (copiedTable action.junk table)).reduceOption.foldl grab
    s.handleCount = count
  set copied := (copiedTable action.junk table).shrink with copied_eq
  have lookup : ∀ index : Nat, copied.lookup index =
      (s.entryAt ⟨.process parent, index⟩).filter fun entry => entry.2 &&& reservedInherit ≠ 0 := by
    intro index
    rw [copied_eq, lookup_shrink, lookup_copiedTable, entryAt_process present]
  have entries : ∀ slot, ({ s with handleCount := count }.setTable (.process pid) copied).entryAt slot =
      if slot.table = .process pid then copied.lookup slot.index else s.entryAt slot := by
    intro slot
    rw [entryAt_setTable, entryAt_withCount]
  refine ⟨_, rfl, .copy request empty fun slot => ?_,
    sound.setTable (.process pid) count (lastInUse_shrink _) ?_⟩
  · rw [entries, lookup]
  · have counted : Counted ({ s with handleCount := count }.setTable (.process pid) copied).held
        ((objects (copiedTable action.junk table)).reduceOption.foldl grab s.handleCount) := by
      refine sound.counted.putAll (slot_injective (.process pid)) (fun index => ?_) (fun index => ?_)
        fun slot away => ?_
      · rw [held, empty]
        rfl
      · rw [held, entries, if_pos rfl, copied_eq, lookup_shrink, objects_getElem?]
      · rw [held, entries, if_neg, held]
        intro here
        exact away slot.index (here ▸ rfl)
    rw [counts] at counted
    exact counted

variable {t : Server Object}

theorem foldlM_releaseObjectFromHandle {objs : List Object} {count : Object → Nat}
    (done : objs.foldlM release s.handleCount = some count) :
    objs.foldlM releaseObjectFromHandle s = .ok { s with handleCount := count } := by
  induction objs generalizing s with
  | nil =>
    cases done
    rfl
  | cons obj rest ih =>
    rw [List.foldlM_cons] at done ⊢
    obtain ⟨mid, released, later⟩ := bind_eq_some_iff.mp done
    unfold release at released
    split at released
    · cases released
    next counted =>
      cases released
      rw [releaseObjectFromHandle, if_neg counted]
      exact ih later

/-- Every handle of a process that exits is closed. -/
theorem closeProcessHandles_entries (sound : s.Sound) (pid : Nat) :
    ∃ s', s.closeProcessHandles pid = .ok s' ∧ s'.Sound ∧ ∀ slot, s'.entryAt slot =
      if slot.table = .process pid then none else s.entryAt slot := by
  unfold closeProcessHandles
  cases present : s.processes pid with
  | none =>
    refine ⟨s, rfl, sound, fun slot => ?_⟩
    obtain ⟨ref, index⟩ := slot
    split
    next here =>
      cases here
      exact entryAt_eq_none s present index
    next => rfl
  | some table =>
    set closed : Server Object := { s with processes := update s.processes pid none }
    have tables : ∀ ref, closed.table ref = if ref = .process pid then none else s.table ref := by
      intro ref
      cases ref with
      | process other =>
        simp only [closed, Server.table, update_apply, TableRef.process.injEq]
      | global => rfl
    have entries : ∀ slot, closed.entryAt slot =
        if slot.table = .process pid then none else s.entryAt slot := by
      intro slot
      rw [entryAt, tables]
      split <;> rfl
    have full : ∀ index, s.held ⟨.process pid, index⟩ = (objects table)[index]?.join := by
      intro index
      rw [held, entryAt_process present, objects_getElem?]
    have emptied : ∀ index, closed.held ⟨.process pid, index⟩ = none := by
      intro index
      rw [held, entries, if_pos rfl]
      rfl
    have others : ∀ slot, (∀ index, slot ≠ ⟨.process pid, index⟩) → closed.held slot = s.held slot := by
      intro slot away
      rw [held, entries, if_neg, held]
      intro here
      exact away slot.index (here ▸ rfl)
    obtain ⟨count, released, counted⟩ :=
      sound.counted.clearAll (slot_injective (.process pid)) full emptied others
    rw [reduceOption_objects] at released
    refine ⟨_, foldlM_releaseObjectFromHandle released, ⟨fun ref other isTable => ?_, ?_⟩, fun slot => ?_⟩
    · rw [table_withCount, tables] at isTable
      split at isTable
      · cases isTable
      · exact sound.lastInUse ref other isTable
    · exact counted
    · rw [entryAt_withCount, entries]

/-- **Every allowed request is answered**, and the server stays sound. -/
theorem step_answers (sound : s.Sound) (allowed : Allowed s action) : Answers s action := by
  unfold Allowed at allowed
  split at allowed
  next request => exact answers_start sound request (isNone_iff_eq_none.mp allowed)
  next request =>
    obtain ⟨table, present⟩ := isSome_iff_exists.mp allowed.2
    exact answers_copy sound request (isNone_iff_eq_none.mp allowed.1) present
  next request => exact answers_alloc sound request allowed
  next request => exact answers_close sound request allowed
  next request =>
    obtain ⟨s', done, still, entries⟩ := closeProcessHandles_entries sound _
    exact ⟨s', by rw [step, request]; exact done, .exit request entries, still⟩

/-! ### Runs -/

omit [DecidableEq Object] in
theorem sound_initial : (initial : Server Object).Sound := by
  have nothing : (initial : Server Object).held = fun _ => none := by
    funext ⟨ref, index⟩
    cases ref <;> rfl
  refine ⟨fun ref table present => ?_, ?_⟩
  · cases ref <;> cases present
  · rw [nothing]
    exact counted_empty

theorem sound_of_runs (run : Runs step Allowed s t) (sound : s.Sound) : t.Sound := by
  refine run.invariant Server.Sound sound fun s action t sound allowed done => ?_
  obtain ⟨t', same, -, still⟩ := step_answers sound allowed
  cases same.symm.trans done
  exact still

/-- The request closes the handle, or ends the process. Two handles of a process with the same index
are the same handle: the two low bits do not count. -/
def Ends (pid : Nat) (handle : Handle) (s : Server Object) (action : Action Object) : Prop :=
  action.request = .exit pid ∨ ∃ other s', action.request = .close pid other ∧
    handleToIndex other = handleToIndex handle ∧
      s.closeHandle action.closeOp pid other = .ok (.success, s')

/-- A slot keeps its entry. -/
theorem entryAt_of_step (effect : Effect s action t) (goesOn : ¬Ends pid handle s action)
    (index_eq : handleToIndex handle = index) (full : s.entryAt ⟨.process pid, index⟩ = some entry) :
    t.entryAt ⟨.process pid, index⟩ = some entry := by
  cases effect with
  | same entries => rw [entries, full]
  | copy request fresh entries =>
    rw [entries, if_neg, full]
    rintro ⟨⟩
    rw [fresh] at full
    cases full
  | alloc empty entries =>
    rw [entries, update_of_ne, full]
    rintro rfl
    rw [empty] at full
    cases full
  | close request alias_eq closed entries =>
    rw [entries, update_of_ne, full]
    rintro ⟨⟩
    exact goesOn (.inr ⟨_, t, request, alias_eq.trans index_eq.symm, closed⟩)
  | exit request entries =>
    rw [entries, if_neg, full]
    rintro ⟨⟩
    exact goesOn (.inl request)

/-- **A handle resolves until it is closed.** -/
theorem getHandle_of_runs {found : Found Object} (sound : s.Sound) (own : handleIsGlobal handle = false)
    (resolved : s.getHandle pid handle = some found)
    (run : Runs step (fun s action => Allowed s action ∧ ¬Ends pid handle s action) s t) :
    t.getHandle pid handle = some found := by
  by_cases negative : handleToIndex handle < 0
  · rw [getHandle_negative own negative] at resolved
    cases resolved
  obtain ⟨index, index_eq⟩ := Int.eq_ofNat_of_zero_le (Int.not_lt.mp negative)
  rw [getHandle_local own index_eq] at resolved ⊢
  obtain ⟨entry, full, rfl⟩ := map_eq_some_iff.mp resolved
  have both := run.invariant
    (fun s => s.Sound ∧ s.entryAt ⟨.process pid, index⟩ = some entry) ⟨sound, full⟩ ?_
  · rw [both.2]
    rfl
  · rintro s action t ⟨sound, full⟩ ⟨allowed, goesOn⟩ done
    obtain ⟨t', same, effect, still⟩ := step_answers sound allowed
    cases same.symm.trans done
    exact ⟨still, entryAt_of_step effect goesOn index_eq full⟩

/-- **A closed handle is invalid.** -/
theorem getHandle_of_ends (sound : s.Sound) (allowed : Allowed s action)
    (own : handleIsGlobal handle = false) (ends : Ends pid handle s action)
    (done : s.step action = .ok s') : s'.getHandle pid handle = none := by
  by_cases negative : handleToIndex handle < 0
  · exact getHandle_negative own negative
  obtain ⟨index, index_eq⟩ := Int.eq_ofNat_of_zero_le (Int.not_lt.mp negative)
  obtain request | ⟨other, after, request, same, closed⟩ := ends
  · obtain ⟨t, exited, -, entries⟩ := closeProcessHandles_entries sound pid
    rw [step, request] at done
    cases exited.symm.trans done
    rw [getHandle_local own index_eq, entries, if_pos rfl]
    rfl
  · rw [Allowed, request] at allowed
    rw [step, request] at done
    simp only [closed, Except.map] at done
    cases done
    rw [getHandle_local own index_eq, ← getHandle_local allowed (same.trans index_eq)]
    cases resolved : s.getHandle pid other with
    | none =>
      rw [closeHandle, resolved] at closed
      cases closed
    | some found =>
      have counted := sound.counted.pos (held_found resolved)
      obtain ⟨status, t, result, clears⟩ :=
        @closesFound_local _ _ action.closeOp _ _ _ _ resolved counted (plainHandle_local allowed)
      cases closed.symm.trans result
      exact (clears rfl).invalid

/-- What `alloc_handle_entry` returns: the handle of the lowest index that is not in use. -/
theorem allocHandleEntry_lowest
    (allocated : s.allocHandleEntry junk pid obj access inherit = .ok (s', handle)) :
    ∃ index, handle = indexToHandle index ∧ s.getHandle pid handle = none ∧
      (∀ lower < index, (s.getHandle pid (indexToHandle lower)).isSome) ∧
      s'.getHandle pid handle = some ⟨⟨.process pid, index⟩, obj,
        if inherit then access ||| reservedInherit else access⟩ := by
  unfold allocHandleEntry at allocated
  cases present : s.processes pid with
  | none =>
    rw [present] at allocated
    cases allocated
  | some table =>
    rw [present] at allocated
    obtain ⟨⟨table', handle'⟩, entry, result⟩ := bind_eq_ok.mp allocated
    cases result
    obtain ⟨allocates, rfl⟩ := allocEntry_allocates entry
    have inside : table.nextIndex < maxHandleEntries := by
      have full := allocates.lookup table.nextIndex
      rw [if_pos rfl] at full
      have := (lookup_isSome full).2
      have := table'.last_lt
      have := table'.size_le
      omega
    refine ⟨table.nextIndex, rfl, ?_, fun lower below =>
      getHandle_of_lt_nextIndex present (lt_trans below inside) below, ?_⟩
    · rw [getHandle_indexToHandle s pid inside, entryAt_process present, lookup_nextIndex]
      rfl
    · rw [getHandle_indexToHandle _ pid inside, grabObjectForHandle, entryAt_withCount,
        entryAt_update (show s.table (.process pid) = _ from present) allocates.lookup, update_self]
      rfl

/-- **A handle is allocated** as long as there is an index below `MAX_HANDLE_ENTRIES` that is not in
use. -/
theorem allocHandleEntry_ok (junk : Nat → HandleEntry Object) (obj : Object) (access : BitVec 32)
    (inherit : Bool) (present : s.processes pid = some table) (small : index < maxHandleEntries)
    (unused : s.getHandle pid (indexToHandle index) = none) :
    ∃ s' handle, s.allocHandleEntry junk pid obj access inherit = .ok (s', handle) := by
  have free : ¬index < table.nextIndex := fun below => by
    have used := getHandle_of_lt_nextIndex present small below
    rw [unused] at used
    cases used
  have room : ¬(table.grow junk).entries.length = table.entries.length ∨
      table.nextIndex < table.entries.length := by
    have := table.size_pos
    have := table.size_le
    simp only [HandleTable.grow, grownEntries, List.length_append, List.length_map, List.length_range]
    omega
  unfold allocHandleEntry allocEntry
  rw [present]
  dsimp only
  split
  · exact ⟨_, _, rfl⟩
  · next outside =>
    rw [dif_neg (room.resolve_right outside)]
    exact ⟨_, _, rfl⟩

/-- **Handle tables in any run** of processes that start, copy the tables of others, allocate and
close handles, and exit: every request is answered; the cursors of each table are in order; a new
handle has the lowest index that is not in use and resolves to its object, and there is one if an
index below `MAX_HANDLE_ENTRIES` is not in use; a handle resolves to the same entry until it is
closed, and is invalid then; and each object's `handle_count` is the number of entries in all tables
that point to it. -/
theorem handles_of_runs {s : Server Object} (run : Runs Server.step Allowed Server.initial s) :
    (∀ action, Allowed s action → ∃ s', s.step action = .ok s') ∧
    (∀ pid table, s.processes pid = some table → (table.free : Int) ≤ table.last + 1 ∧
      table.last + 1 ≤ table.count ∧ (∀ index < table.free, (ptrAt table.entries index).isSome) ∧
      (table.last = -1 ∨ 0 ≤ table.last ∧ (ptrAt table.entries table.last.toNat).isSome)) ∧
    (∀ junk pid obj access inherit s' handle,
      s.allocHandleEntry junk pid obj access inherit = .ok (s', handle) →
        ∃ index, handle = indexToHandle index ∧ s.getHandle pid handle = none ∧
          (∀ lower < index, (s.getHandle pid (indexToHandle lower)).isSome) ∧
          s'.getHandle pid handle = some ⟨⟨.process pid, index⟩, obj,
            if inherit then access ||| reservedInherit else access⟩) ∧
    (∀ junk pid obj access inherit, (s.processes pid).isSome → ∀ index < maxHandleEntries,
      s.getHandle pid (indexToHandle index) = none →
        ∃ s' handle, s.allocHandleEntry junk pid obj access inherit = .ok (s', handle)) ∧
    (∀ pid handle found, handleIsGlobal handle = false → s.getHandle pid handle = some found →
      ∀ t, Runs Server.step (fun s action => Allowed s action ∧ ¬Ends pid handle s action) s t →
        t.getHandle pid handle = some found) ∧
    (∀ pid handle action s', handleIsGlobal handle = false → Allowed s action →
      Ends pid handle s action → s.step action = .ok s' → s'.getHandle pid handle = none) ∧
    ∀ obj, {slot | s.held slot = some obj}.Finite ∧
      s.handleCount obj = {slot | s.held slot = some obj}.ncard := by
  have sound := sound_of_runs run sound_initial
  refine ⟨fun action allowed => ?_, fun pid table present => ?_, ?_, ?_, ?_, ?_, sound.counted⟩
  · obtain ⟨s', done, -⟩ := step_answers sound allowed
    exact ⟨s', done⟩
  · have last_lt := table.last_lt
    refine ⟨table.free_le, last_lt, table.used, ?_⟩
    refine (sound.lastInUse (.process pid) table present).imp_right fun inUse => ?_
    obtain ⟨entry, full⟩ := isSome_iff_exists.mp inUse
    have within := lookup_isSome full
    rw [lookup_eq, if_pos within, entryView_isSome] at inUse
    exact ⟨within.1, inUse⟩
  · exact fun junk pid obj access inherit s' handle => allocHandleEntry_lowest
  · intro junk pid obj access inherit running index
    obtain ⟨table, present⟩ := isSome_iff_exists.mp running
    exact allocHandleEntry_ok junk obj access inherit present
  · exact fun pid handle found own resolved t => getHandle_of_runs sound own resolved
  · exact fun pid handle action s' own allowed ends => getHandle_of_ends sound allowed own ends

end Requests

/-- Two handles, of which one is inherited by a second process; the first process exits. -/
def someRequests : List (Action Nat) :=
  [.start 0, .alloc 0 7 1 false, .alloc 0 7 1 true, .copy 1 0, .close 0 4, .alloc 0 8 1 false, .exit 0,
    .alloc 1 9 1 false].map fun request => ⟨request, fun _ => ⟨some 5, 0⟩, fun _ _ _ => true⟩

theorem handles_of_runs_someRequests :
    ∃ s, someRequests.foldlM (checked Server.step Allowed) Server.initial = some s ∧
      (s.getHandle 1 8).map Found.ptr = some 7 ∧ (s.getHandle 1 4).map Found.ptr = some 9 ∧
      s.handleCount 7 = 1 ∧ s.handleCount 7 = {slot | s.held slot = some 7}.ncard := by
  obtain ⟨s, done, inherited, allocated, count⟩ := exists_some_of_check
    (x := someRequests.foldlM (checked step Allowed) initial)
    (fun s => (s.getHandle 1 8).map Found.ptr = some 7 ∧ (s.getHandle 1 4).map Found.ptr = some 9 ∧
      s.handleCount 7 = 1) (by decide +kernel)
  exact ⟨s, done, inherited, allocated, count, ((handles_of_runs (runs_of_checked done)).2.2.2.2.2.2 7).2⟩

end FreeWindows.Handles
