/-
**The registry keys of the server.**

`server/registry.c`: a key is an object with a name and a parent, an array of its subkeys that is
kept in the order of `find_subkey`, an array of values, and flags. Keys are numbered in the order of
their creation, and `Heap` maps the numbers to the keys; the root key is number 0. A key that was
created has a parent that is older, and the entries of a subkeys array are younger than the key they
are entries of. Both hold in every state, also where the order of an array is lost, so they are
fields of `Heap`; walks to the parents and to the subkeys terminate because of them.

Of an array, the used slots are modelled as a list, and the number of allocated slots as a number:
what stands in the slots behind the used ones is never read. Times, notifications, security
descriptors and reference counts are left out; allocations succeed.
-/

import FreeWindows.Lib.Slots
import FreeWindows.Registry.Names

namespace FreeWindows.Registry

open Lib

/-- `struct key_value`. -/
structure KeyValue where
  name : Name
  type : UInt32
  data : List UInt8
deriving DecidableEq, Repr

/-- The `KEY_` flags of a key. -/
structure Flags where
  volatile : Bool := false
  deleted : Bool := false
  dirty : Bool := false
  symlink : Bool := false
  wowshare : Bool := false
  predef : Bool := false
deriving DecidableEq, Repr

/-- `struct object_name`: the parent, if it is a key. -/
structure ObjectName where
  name : Name
  parent : Option Nat
deriving DecidableEq, Repr

/-- `struct key`. -/
structure Key where
  objName : Option ObjectName := none
  cls : Option Name := none
  subkeys : List Nat := []
  nbSubkeys : Nat := 0
  wow6432node : Option Nat := none
  values : List KeyValue := []
  nbValues : Nat := 0
  flags : Flags := {}
deriving DecidableEq, Repr

def Key.name (key : Key) : Name := (key.objName.map ObjectName.name).getD []

/-- `get_parent`. -/
def Key.parent (key : Key) : Option Nat := key.objName.bind ObjectName.parent

/-- What a key holds besides its place in the tree. -/
structure KeyData where
  cls : Option Name
  values : List KeyValue
  nbValues : Nat
  flags : Flags
deriving DecidableEq, Repr

def Key.data (key : Key) : KeyData := ⟨key.cls, key.values, key.nbValues, key.flags⟩

/-- The data without `KEY_DIRTY`. -/
def KeyData.settled (data : KeyData) : KeyData :=
  { data with flags := { data.flags with dirty := false } }

/-- The keys, the case mapping that names are compared with, and how many objects a lookup may pass.
The server has no limit for these, so that the number is arbitrary. -/
structure Heap where
  casemap : CaseMap
  rounds : Nat
  key : Nat → Key
  next : Nat
  linked : ∀ k p, (key k).parent = some p → p < k ∧ k < next
  children : ∀ k c, c ∈ (key k).subkeys → k < c ∧ c < next

/-- `STATUS_` codes. -/
inductive Status
  | accessDenied
  | cannotDelete
  | childMustBeVolatile
  | invalidHandle
  | invalidParameter
  | keyDeleted
  | nameTooLong
  | noMoreEntries
  | objectNameCollision
  | objectNameExists
  | objectNameInvalid
  | objectNameNotFound
  | objectPathNotFound
  | objectPathSyntaxBad
  | objectTypeMismatch
  | predefinedHandle
  /-- no code of the server: the lookup did not end in the rounds of the heap -/
  | endless
deriving DecidableEq, Repr

/-- Ways in which the server process goes wrong. -/
inductive Fault
  | nullPointer
  | outOfBounds
  | assertion
  /-- no error of the server: a recursion did not end in the rounds that the model allows -/
  | endless
deriving DecidableEq, Repr

namespace Heap

variable (heap : Heap)

/-! ### Changing one key -/

/-- The heap with another key `k`. -/
def set (k : Nat) (new : Key) (linked : ∀ p, new.parent = some p → p < k ∧ k < heap.next)
    (children : ∀ c ∈ new.subkeys, k < c ∧ c < heap.next) : Heap where
  casemap := heap.casemap
  rounds := heap.rounds
  key i := if i = k then new else heap.key i
  next := heap.next
  linked i p same := by
    by_cases eq : i = k
    · rw [if_pos eq] at same
      exact eq ▸ linked p same
    · rw [if_neg eq] at same
      exact heap.linked i p same
  children i c member := by
    by_cases eq : i = k
    · rw [if_pos eq] at member
      exact eq ▸ children c member
    · rw [if_neg eq] at member
      exact heap.children i c member

/-- A change of a key that leaves its place in the tree as it is. -/
def modify (k : Nat) (change : Key → Key)
    (same : ∀ key, (change key).parent = key.parent ∧ (change key).subkeys = key.subkeys) : Heap :=
  heap.set k (change (heap.key k))
    (fun p eq => heap.linked k p ((same _).1 ▸ eq))
    (fun c member => heap.children k c ((same _).2 ▸ member))

def setFlags (k : Nat) (change : Flags → Flags) : Heap :=
  heap.modify k (fun key => { key with flags := change key.flags }) fun _ => ⟨rfl, rfl⟩

def setValues (k : Nat) (values : List KeyValue) (nbValues : Nat) : Heap :=
  heap.modify k (fun key => { key with values := values, nbValues := nbValues })
    fun _ => ⟨rfl, rfl⟩

def setClass (k : Nat) (cls : Name) : Heap :=
  heap.modify k (fun key => { key with cls := some cls }) fun _ => ⟨rfl, rfl⟩

/-! ### Dirty keys -/

def makeDirty (heap : Heap) (k : Nat) : Heap :=
  if (heap.key k).flags.dirty ∨ (heap.key k).flags.volatile then heap
  else
    let heap' := heap.setFlags k fun flags => { flags with dirty := true }
    match _ : (heap.key k).parent with
    | none => heap'
    | some p => heap'.makeDirty p
termination_by k
decreasing_by exact (heap.linked k p ‹_›).1

/-- `touch_key`: there is no test for a null pointer. -/
def touchKey (heap : Heap) : Option Nat → Except Fault Heap
  | none => .error .nullPointer
  | some k => .ok (heap.makeDirty k)

/-- `make_clean`, down to keys that are `depth` generations away. -/
def makeClean : (depth : Nat) → Heap → Nat → Heap
  | 0, heap, _ => heap
  | depth + 1, heap, k =>
    if (heap.key k).flags.volatile then heap
    else if ¬(heap.key k).flags.dirty then heap
    else (heap.key k).subkeys.foldl (makeClean depth)
      (heap.setFlags k fun flags => { flags with dirty := false })

end Heap

end FreeWindows.Registry
