/-
**User handles of the wine server.**

`server/user.c`: windows, menus, hooks and the like have handles that are the same in all processes of
a session. The low word of a handle is the place of its entry in the shared table `user_entries`, the
high word is the generation of the entry, which counts how often the entry was allocated. A handle
without a generation stands for whatever is in its entry. Entries that were freed are in a list that
is threaded through their field `offset`.

Pointers to the objects are of an arbitrary type, with `none` for a null pointer. Writing to an entry
that is not in the tables is a fault.
-/

import FreeWindows.Lib.FreeList
import FreeWindows.Lib.Run

namespace FreeWindows.User

open Lib Function

def firstUserHandle : UInt32 := 0x20

def lastUserHandle : UInt32 := 0xffef

/-- `MAX_USER_HANDLES` of `include/ntuser.h`. -/
def maxUserHandles : Nat := ((lastUserHandle - firstUserHandle + 1) >>> 1).toNat

/-- `struct user_entry`. -/
structure UserEntry where
  offset : UInt64
  tid : UInt32
  pid : UInt32
  id : UInt64
  type : UInt16
  generation : UInt16
deriving DecidableEq, Repr

/-- `struct obj_locator`. -/
structure ObjLocator where
  id : UInt64
  offset : UInt64
deriving DecidableEq, Repr

/-- The current thread, as far as it is noted in an entry. -/
structure Thread where
  tid : UInt32
  pid : UInt32
deriving DecidableEq, Repr

/-- The tables, and the variables that go with them. -/
structure Session (α : Type) where
  entries : Nat → UserEntry
  serverObjects : Nat → Option α
  freelist : UInt64
  nbHandles : Nat

/-- An entry that is not in the tables is used. -/
inductive Fault
  | outOfBounds (index : Nat)
deriving DecidableEq, Repr

namespace Session

variable {α : Type} (s : Session α)

/-! ### Handles and entries -/

/-- The place of the entry that a handle belongs to, if there is one. -/
def handleIndex (handle : UInt32) : Nat := (((handle &&& 0xffff) - firstUserHandle) >>> 1).toNat

def handleToEntry (handle : UInt32) : Option Nat :=
  let generation := (handle >>> 16).toUInt16
  let index := handleIndex handle
  if s.nbHandles ≤ index then none
  else if (s.entries index).type = 0 then none
  else if generation = 0 ∨ generation = 0xffff then some index
  else if generation = (s.entries index).generation then some index
  else none

/-- The handle of an entry with this generation. -/
def makeHandle (index : Nat) (generation : UInt16) : UInt32 :=
  (UInt32.ofNat index <<< 1) + firstUserHandle + (generation.toUInt32 <<< 16)

def entryToHandle (index : Nat) : UInt32 := makeHandle index (s.entries index).generation

/-! ### Allocating and freeing -/

def setEntry (index : Nat) (entry : UserEntry) : Session α :=
  { s with entries := update s.entries index entry }

def setServerObject (index : Nat) (ptr : Option α) : Session α :=
  { s with serverObjects := update s.serverObjects index ptr }

/-- The generation after the given one. -/
def nextGeneration (generation : UInt16) : UInt16 :=
  if generation + 1 = 0 ∨ generation + 1 = 0xffff then 1 else generation + 1

/-- The entry that `alloc_user_entry` uses: the first of the list, or the one behind those that were
used before. -/
def nextIndex : Nat := if s.freelist ≠ -1 then s.freelist.toNat else s.nbHandles

def allocUserEntry (current : Thread) (locator : ObjLocator) (type : UInt16) :
    Except Fault (Session α × Nat) :=
  let index := s.nextIndex
  if maxUserHandles ≤ index then .error (.outOfBounds index)
  else
    let entry := s.entries index
    let generation := if s.freelist ≠ -1 then nextGeneration entry.generation else 1
    let taken : Session α :=
      if s.freelist ≠ -1 then { s with freelist := entry.offset }
      else { s with nbHandles := s.nbHandles + 1 }
    .ok (taken.setEntry index
      { offset := locator.offset, tid := current.tid, pid := current.pid, id := locator.id, type,
        generation }, index)

def freeUserEntry (index : Nat) : Session α :=
  { s.setEntry index { s.entries index with type := 0, offset := s.freelist } with
    freelist := UInt64.ofNat index }

def allocUserHandle (current : Thread) (ptr : Option α) (shared : Option ObjLocator)
    (type : UInt16) : Except Fault (Session α × UInt32) := do
  let (s, index) ← s.allocUserEntry current (shared.getD ⟨0, 0⟩) type
  let s := s.setServerObject index ptr
  return (s, s.entryToHandle index)

def getUserObject (handle : UInt32) (type : UInt16) : Option α :=
  match s.handleToEntry handle with
  | none => none
  | some index => if (s.entries index).type ≠ type then none else s.serverObjects index

def getUserFullHandle (handle : UInt32) : UInt32 :=
  if handle >>> 16 ≠ 0 then handle
  else
    match s.handleToEntry handle with
    | none => handle
    | some index => s.entryToHandle index

/-- `free_user_handle`: the object, unless the handle is invalid. -/
def freeUserHandle (handle : UInt32) : Session α × Option α :=
  match s.handleToEntry handle with
  | none => (s, none)
  | some index => ((s.setServerObject index none).freeUserEntry index, s.serverObjects index)

/-- The `free_user_handle` request, which leaves the object where it is; the handle is invalid if it
is not of the type. -/
def freeUserHandleRequest (handle : UInt32) (type : UInt16) : Session α :=
  match s.handleToEntry handle with
  | none => s
  | some index => if (s.entries index).type = type then s.freeUserEntry index else s

/-! ### Calls -/

/-- The calls that allocate and free handles; the `alloc_user_handle` request is a call of the
function. -/
inductive Call (α : Type)
  | alloc (current : Thread) (ptr : Option α) (shared : Option ObjLocator) (type : UInt16)
  | free (handle : UInt32)
  | freeRequest (handle : UInt32) (type : UInt16)

/-- The session after a call. -/
def step (s : Session α) : Call α → Except Fault (Session α)
  | .alloc current ptr shared type => (s.allocUserHandle current ptr shared type).map Prod.fst
  | .free handle => .ok (s.freeUserHandle handle).1
  | .freeRequest handle type => .ok (s.freeUserHandleRequest handle type)

/-- The call frees this entry. -/
def Frees (index : Nat) (s : Session α) : Call α → Prop
  | .alloc .. => False
  | .free handle => s.handleToEntry handle = some index
  | .freeRequest handle type =>
    s.handleToEntry handle = some index ∧ (s.entries index).type = type

/-- The call allocates this entry. -/
def Allocates (index : Nat) (s : Session α) : Call α → Prop
  | .alloc .. => s.nextIndex = index
  | _ => False

instance (index : Nat) (call : Call α) : Decidable (Allocates index s call) := by
  cases call <;> unfold Allocates <;> infer_instance

/-- How often the calls allocate this entry. -/
def allocations (index : Nat) : Session α → List (Call α) → Nat
  | _, [] => 0
  | s, call :: rest =>
    (if Allocates index s call then 1 else 0) +
      match s.step call with
      | .ok t => allocations index t rest
      | .error _ => 0

/-- The link of an entry in the list of those that were freed; `-1` is its end. -/
def linkOf (offset : UInt64) : Option Nat := if offset = -1 then none else some offset.toNat

/-- The entries that were freed, and not allocated again. -/
def freeEntries : List Nat :=
  follow (fun i => linkOf (s.entries i).offset) s.nbHandles (linkOf s.freelist)

/-- How many entries are allocated. -/
def inUse : Nat := s.nbHandles - s.freeEntries.length

/-- An entry is left for the call. -/
def HasRoom (s : Session α) : Call α → Prop
  | .alloc .. => s.inUse < maxUserHandles
  | _ => True

instance (call : Call α) : Decidable (s.HasRoom call) := by
  cases call <;> unfold HasRoom <;> infer_instance

/-- An entry is left for the call, and its type is not the one of unused entries. -/
def Within (s : Session α) (call : Call α) : Prop :=
  s.HasRoom call ∧ ∀ current ptr shared type, call = .alloc current ptr shared type → type ≠ 0

/-- The tables before the first call. -/
def initial : Session α := ⟨fun _ => ⟨0, 0, 0, 0, 0, 0⟩, fun _ => none, -1, 0⟩

end Session

end FreeWindows.User
