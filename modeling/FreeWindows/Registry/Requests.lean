/-
**Requests that change the registry.**

Creating, renaming and deleting keys, setting and deleting values, and saving the branches that have
a file. A request returns the changed heap together with a status, or the server goes wrong with a
`Fault`. A handle is modelled as the number of its key.

The steps with which `init_registry` and `load_keys` build up a tree are requests as well: creating
the keys of a path, storing a value, marking a key as a link, and registering a branch.
-/

import FreeWindows.Registry.Text

namespace FreeWindows.Registry

open Lib

def minSubkeys : Nat := 8

def minValues : Nat := 8

def maxValueLen : Nat := 16383

def regLink : UInt32 := 6

/-- `grow_subkeys` and `grow_values`: the number of slots after one more was needed. -/
def grown (used slots min : Nat) : Nat :=
  if used = slots then if slots ≠ 0 then slots + slots / 2 else min else slots

/-- The number of slots after one was given up, from which the last used one was. -/
def shrunk (used slots min : Nat) : Nat :=
  if slots > min ∧ (used : Int) - 1 < slots / 2 then max (slots - slots / 3) min else slots

/-- The `REG_OPTION_` flags of a request. -/
structure Options where
  createLink : Bool := false
  volatile : Bool := false
deriving DecidableEq, Repr

/-- The `KEY_WOW64_` bits of an access mask. -/
structure Access where
  wow64_32key : Bool := false
  wow64_64key : Bool := false
deriving DecidableEq, Repr

/-- The attributes with which `create_key` looks up the name. -/
def createAttributes (options : Options) (access : Access) (attr : Attributes) : Attributes :=
  let attr := if options.createLink then { attr with openIf := false, openLink := true } else attr
  if access.wow64_64key then attr else { attr with keyWow64 := true }

/-- A key that is returned together with a status that is not a failure. -/
structure Opened where
  key : Nat
  status : Option Status
deriving DecidableEq, Repr

namespace Heap

/-! ### Links between a key and its parent -/

/-- A new key with a name, below an older key. -/
def addKey (heap : Heap) (p : Nat) (older : p < heap.next) (name : Name) (flags : Flags) :
    Heap where
  casemap := heap.casemap
  rounds := heap.rounds
  key i := if i = heap.next then { objName := some ⟨name, some p⟩, flags } else heap.key i
  next := heap.next + 1
  linked i q same := by
    by_cases eq : i = heap.next
    · rw [if_pos eq] at same
      cases same
      exact ⟨eq ▸ older, by omega⟩
    · rw [if_neg eq] at same
      have := heap.linked i q same
      exact ⟨this.1, by omega⟩
  children i c member := by
    by_cases eq : i = heap.next
    · rw [if_pos eq] at member
      cases member
    · rw [if_neg eq] at member
      have := heap.children i c member
      exact ⟨this.1, by omega⟩

/-- The index that `find_subkey` reports, whether or not there is such a key. -/
def insertionIndex (heap : Heap) (p : Nat) (name : Name) : Nat :=
  match heap.findSubkey p name with
  | .found index => index
  | .gap index => index

/-- The subkeys array with `k` in the slot `index`, after the ones behind were moved up. -/
def insertSlot (slots : List Nat) (index k : Nat) : List Nat :=
  (shiftUp (slots ++ [k]) slots.length index).set index k

variable {c index : Nat} {slots : List Nat}

theorem mem_insertSlot {k : Nat} (member : c ∈ insertSlot slots index k) : c ∈ slots ∨ c = k := by
  rcases List.mem_or_eq_of_mem_set member with old | same
  · simpa using mem_shiftUp old
  · exact .inr same

/-- `key_link_name`, for a new key below the key `p`. -/
def link (heap : Heap) (p : Nat) (older : p < heap.next) (name : Name) (flags : Flags) : Heap :=
  let parent := heap.key p
  let index := heap.insertionIndex p name
  let k := heap.next
  (heap.addKey p older name flags).set p
    { parent with
      subkeys := insertSlot parent.subkeys index k
      nbSubkeys := grown parent.subkeys.length parent.nbSubkeys minSubkeys
      wow6432node :=
        if isWow6432node heap.casemap name ∧ ¬isWow6432node heap.casemap parent.name then some k
        else parent.wow6432node }
    (fun q same => by
      have := heap.linked p q same
      exact ⟨this.1, Nat.lt_succ_of_lt older⟩)
    (fun c member => by
      rcases mem_insertSlot member with old | new
      · have := heap.children p c old
        exact ⟨this.1, Nat.lt_succ_of_lt this.2⟩
      · exact ⟨new ▸ older, new ▸ Nat.lt_succ_self _⟩)

/-- The subkeys array without its slot `index`. -/
def removeSlot (slots : List Nat) (index : Nat) : List Nat :=
  (shiftDown slots index (slots.length - 1)).dropLast

theorem mem_removeSlot (member : c ∈ removeSlot slots index) : c ∈ slots :=
  mem_shiftDown (List.dropLast_subset _ member)

/-- The key without a name. -/
def unname (heap : Heap) (k : Nat) : Heap :=
  heap.set k { heap.key k with objName := none } (fun _ same => nomatch same)
    (heap.children k)

/-- The key `p` without `k` in its array of subkeys. -/
def dropEntry (heap : Heap) (p k : Nat) : Heap :=
  let parent := heap.key p
  heap.set p
    { parent with
      subkeys := removeSlot parent.subkeys (parent.subkeys.idxOf k)
      nbSubkeys := shrunk (parent.subkeys.length - 1) parent.nbSubkeys minSubkeys
      wow6432node := if parent.wow6432node = some k then none else parent.wow6432node }
    (heap.linked p)
    (fun c member => heap.children p c (mem_removeSlot member))

/-- `unlink_named_object` with `key_unlink_name`. -/
def unlinkName (heap : Heap) (k : Nat) : Except Fault Heap :=
  match (heap.key k).parent with
  | none => .ok (heap.unname k)
  | some p =>
    if k ∈ (heap.key p).subkeys then .ok ((heap.unname k).dropEntry p k) else .error .assertion

/-! ### Creating keys -/

/-- `open_named_object`, for keys. -/
def openNamedObject (heap : Heap) (parent : Option Nat) (name : Name) (attr : Attributes) :
    Except Status Nat := do
  let (node, left) ← heap.lookupNamedObject maxRecursion parent name attr
  if ¬isEmpty left then .error .objectNameNotFound
  else
    match node with
    | .directory => .error .objectTypeMismatch
    | .key k => .ok k

/-- `create_key_object` with `create_named_object`. -/
def createKeyObject (heap : Heap) (parent : Option Nat) (name : Name) (attr : Attributes)
    (options : Options) : Except Fault (Heap × Except Status Opened) :=
  if name = [] then .ok (heap, (heap.openNamedObject parent name attr).map (⟨·, none⟩))
  else
    match heap.lookupNamedObject maxRecursion parent name attr with
    | .error status => .ok (heap, .error status)
    | .ok (node, left) =>
      match left.getD [] with
      | [] =>
        match node with
        | .key k =>
          .ok (heap, if attr.openIf then .ok ⟨k, some .objectNameExists⟩
            else .error .objectNameCollision)
        | .directory =>
          .ok (heap, .error (if attr.openIf then .objectTypeMismatch else .objectNameCollision))
      | newName =>
        match node with
        | .directory => .ok (heap, .error .objectNameNotFound)
        | .key p =>
          if older : p < heap.next then
            let flags : Flags := { symlink := options.createLink, volatile := options.volatile
                                   dirty := !options.volatile }
            let linked := heap.link p older newName flags
            if ¬options.volatile ∧ parent.isSome ∧ (heap.key p).flags.volatile then do
              let unlinked ← linked.unlinkName heap.next
              return (unlinked, .error .childMustBeVolatile)
            else .ok (linked, .ok ⟨heap.next, none⟩)
          else .ok (heap, .error .invalidHandle)

def getWow6432node (heap : Heap) (k : Nat) : Option Nat :=
  match (heap.key k).wow6432node with
  | some w => some w
  | none =>
    match _ : (heap.key k).parent with
    | none => some k
    | some p =>
      if (heap.key p).wow6432node = some k then some k
      else
        match heap.getWow6432node p with
        | none => some k
        | some w => heap.subkey w (heap.key k).name
termination_by k
decreasing_by exact (heap.linked k p ‹_›).1

def grabWow6432node (heap : Heap) (k : Nat) : Nat :=
  match (heap.key k).wow6432node with
  | some w => if (heap.key w).flags.wowshare then k else w
  | none => k

/-- The parent that `create_key` uses: a 32-bit request can be redirected. -/
def redirectParent (heap : Heap) (name : Name) (access : Access) (parent : Option Nat) :
    Option Nat :=
  parent.map fun p =>
    if ¬access.wow64_64key ∧ ¬isWow6432node heap.casemap name then
      match heap.getWow6432node p with
      | some w => if access.wow64_32key ∨ (heap.key w).flags.wowshare then w else p
      | none => p
    else p

def createKey (heap : Heap) (parent : Option Nat) (name : Name) (options : Options)
    (access : Access) (attr : Attributes) : Except Fault (Heap × Except Status Opened) := do
  let parent := heap.redirectParent name access parent
  match ← heap.createKeyObject parent name (createAttributes options access attr) options with
  | (heap, .error status) => return (heap, .error status)
  | (heap, .ok opened) =>
    if opened.status = some .objectNameExists then
      let status := if (heap.key opened.key).flags.predef then .predefinedHandle
        else .objectNameExists
      let key := if access.wow64_64key then opened.key else heap.grabWow6432node opened.key
      return (heap, .ok ⟨key, some status⟩)
    else
      let heap ← if parent.isSome then heap.touchKey (heap.key opened.key).parent else pure heap
      return (heap, .ok opened)

def createKeyRecursive (heap : Heap) (root : Nat) (name : Name) :
    Except Fault (Heap × Except Status Nat) :=
  if name = [] then .ok (heap, .ok root)
  else do
    let tmp := getPathElement name
    match ← heap.createKeyObject (some root) tmp { openIf := true } {} with
    | (heap, .error status) => return (heap, .error status)
    | (heap, .ok opened) =>
      if _ : tmp.length < name.length then
        createKeyRecursive heap opened.key (name.drop (tmp.length + 1))
      else return (heap, .ok opened.key)
termination_by name.length
decreasing_by
  rw [List.length_drop]
  omega

/-! ### Renaming keys -/

/-- The loops of `rename_key` that make room at `index` for the entry in the slot `cur`, and the
index after them. -/
def shiftEntries (slots : List Nat) (cur index : Nat) : List Nat × Nat :=
  if cur < index ∧ index - cur > 1 then (shiftDown slots cur (index - 1), index - 1)
  else if cur > index then (shiftUp slots cur index, index)
  else (slots, index)

/-- The subkeys array after `rename_key` has moved the entry `k` from its slot to `index`, where the
new name belongs while the entry still stands in its old slot. The write to `index` hits the slot of
another key, or one that is not used, when `index` is the slot right behind the old one. -/
def moveSlot (slots : List Nat) (allocated k index : Nat) : Except Fault (List Nat) :=
  let cur := slots.idxOf k
  let (moved, index) := shiftEntries slots cur index
  if allocated ≤ max cur index then .error .outOfBounds else .ok (moved.set index k)

theorem mem_shiftEntries {cur : Nat} (member : c ∈ (shiftEntries slots cur index).1) : c ∈ slots := by
  unfold shiftEntries at member
  split_ifs at member
  · exact mem_shiftDown member
  · exact mem_shiftUp member
  · exact member

theorem mem_moveSlot {moved : List Nat} {allocated k : Nat}
    (done : moveSlot slots allocated k index = .ok moved) (member : c ∈ moved) : c ∈ slots ∨ c = k := by
  unfold moveSlot at done
  dsimp only at done
  split_ifs at done
  cases done
  rcases List.mem_or_eq_of_mem_set member with old | same
  · exact .inl (mem_shiftEntries old)
  · exact .inr same

/-- The heap in which the key `k` has another name, and its parent `p` has the given entries. -/
def relabel (heap : Heap) (k p : Nat) (name : Name) (slots : List Nat)
    (parent : (heap.key k).parent = some p)
    (entries : ∀ c ∈ slots, c ∈ (heap.key p).subkeys ∨ c = k) : Heap :=
  (heap.set p { heap.key p with subkeys := slots } (heap.linked p)
    (fun c member => by
      rcases entries c member with old | same
      · exact heap.children p c old
      · exact same ▸ heap.linked k p parent)).set k
    { heap.key k with objName := some ⟨name, some p⟩ }
    (fun q same => heap.linked k q (parent.trans same))
    (heap.children k)

def renameKey (heap : Heap) (k : Nat) (newName : Name) : Except Fault (Heap × Option Status) :=
  let len := (getPathElement newName).length
  if len = 0 ∨ len ≠ newName.length ∨ len > maxNameLen then .ok (heap, some .invalidParameter)
  else
    match parent : (heap.key k).parent with
    | none => .ok (heap, some .cannotDelete)
    | some p =>
      match heap.findSubkey p newName with
      | .found _ => .ok (heap, some .cannotDelete)
      | .gap index =>
        if (heap.key p).wow6432node = some k ∨ isWow6432node heap.casemap newName then
          .ok (heap, some .invalidParameter)
        else
          match moved : moveSlot (heap.key p).subkeys (heap.key p).nbSubkeys k index with
          | .error fault => .error fault
          | .ok slots =>
            let renamed := heap.relabel k p newName slots parent fun _ => mem_moveSlot moved
            .ok (renamed.makeDirty k, none)

/-! ### Deleting keys -/

/-- `delete_key`, with the keys below it if `recurse` is set. -/
def deleteKey : (rounds : Nat) → (recurse : Bool) → Heap → Nat → Except Fault (Heap × Option Status)
  | 0, _, _, _ => .error .endless
  | rounds + 1, recurse, heap, k =>
    if (heap.key k).flags.deleted then .ok (heap, none)
    else
      match (heap.key k).parent with
      | none => .ok (heap, some .accessDenied)
      | some p =>
        if (heap.key k).flags.predef then .ok (heap, some .invalidHandle)
        else
          match (heap.key k).subkeys.getLast? with
          | some c =>
            if recurse then do
              let (heap, status) ← deleteKey rounds true heap c
              if status.isSome then return (heap, status) else deleteKey rounds true heap k
            else .ok (heap, some .accessDenied)
          | none => do
            let heap ← (heap.setFlags k fun flags => { flags with deleted := true }).unlinkName k
            return (heap.makeDirty p, none)

/-! ### Values -/

/-- `insert_value` where there is no value of the name, and the new type and data. -/
def storeValue (heap : Heap) (k : Nat) (name : Name) (type : UInt32) (data : List UInt8) :
    Heap × Option Status :=
  let key := heap.key k
  match heap.findValue k name with
  | .found index =>
    let values := key.values.modify index fun value => { value with type, data }
    (heap.setValues k values key.nbValues, none)
  | .gap index =>
    if name.length > maxValueLen then (heap, some .nameTooLong)
    else
      let value : KeyValue := ⟨name, type, data⟩
      let values := (shiftUp (key.values ++ [value]) key.values.length index).set index value
      (heap.setValues k values (grown key.values.length key.nbValues minValues), none)

/-- The value that `find_value` returns. -/
def value (heap : Heap) (k : Nat) (name : Name) : Option KeyValue :=
  match heap.findValue k name with
  | .found index => (heap.key k).values[index]?
  | .gap _ => none

def setValue (heap : Heap) (k : Nat) (name : Name) (type : UInt32) (data : List UInt8) :
    Heap × Option Status :=
  let flags := (heap.key k).flags
  if flags.predef then (heap, some .invalidHandle)
  else if (heap.value k name).any fun old =>
      old.type = type ∧ old.data ≠ [] ∧ old.data = data then (heap, none)
  else if flags.symlink ∧ (type ≠ regLink ∨ name.length ≠ symlinkValueName.length ∨
      memicmpStrW heap.casemap name symlinkValueName ≠ 0) then (heap, some .accessDenied)
  else
    match heap.storeValue k name type data with
    | (heap, some status) => (heap, some status)
    | (heap, none) => (heap.makeDirty k, none)

def deleteValue (heap : Heap) (k : Nat) (name : Name) : Heap × Option Status :=
  let key := heap.key k
  if key.flags.predef then (heap, some .invalidHandle)
  else
    match heap.findValue k name with
    | .gap _ => (heap, some .objectNameNotFound)
    | .found index =>
      let values := (shiftDown key.values index (key.values.length - 1)).dropLast
      let nbValues := shrunk (key.values.length - 1) key.nbValues minValues
      ((heap.setValues k values nbValues).makeDirty k, none)

end Heap

/-! ### Saved branches -/

/-- The keys, the branches that have a file, and what was last written to their files. -/
structure Server where
  heap : Heap
  branches : List Nat
  saved : Nat → Option (List UInt8)

/-- What becomes of the file when a branch is saved. -/
inductive FileResult
  | notOpened
  | notWritten
  | written
deriving DecidableEq, Repr

/-- `save_branch`, with the times of the keys and the `prefix_type`. The path of the key is written first,
and read from its name. -/
def Server.saveBranch (server : Server) (modif : Nat → Int) (arch : Arch) (k : Nat) (file : FileResult) :
    Except Fault Server :=
  if ¬(server.heap.key k).flags.dirty then .ok server
  else if file = .notOpened then .ok server
  else if (server.heap.key k).objName = none then .error .nullPointer
  else if file = .notWritten then .ok server
  else
    .ok { server with
      heap := server.heap.makeClean server.heap.next k
      saved := fun b => if b = k then some (server.heap.saveAllSubkeys modif arch k) else server.saved b }

/-! ### Requests -/

inductive Request
  | createKey (parent : Option Nat) (name : Name) (options : Options) (access : Access)
      (attr : Attributes) (cls : Option Name)
  | renameKey (k : Nat) (name : Name)
  | deleteKey (k : Nat)
  | unloadRegistry (k : Nat)
  | setKeyValue (k : Nat) (name : Name) (type : UInt32) (data : List UInt8)
  | deleteKeyValue (k : Nat) (name : Name)
  | periodicSave (modif : Nat → Int) (arch : Arch) (files : Nat → FileResult)
  /-- the steps of `init_registry` and `load_keys` -/
  | loadKey (base : Nat) (path : Name)
  | loadValue (k : Nat) (name : Name) (type : UInt32) (data : List UInt8)
  | loadLink (k : Nat)
  | setShared (k : Nat)
  | setPredefined (k : Nat)
  | addBranch (k : Nat)

def Heap.getHkeyObj (heap : Heap) (k : Nat) : Except Status Nat :=
  if heap.next ≤ k then .error .invalidHandle
  else if (heap.key k).flags.deleted then .error .keyDeleted
  else .ok k

section Handlers

variable (server : Server)

/-- The reply of a request that worked on the heap. -/
def Server.reply (result : Heap × Option Status) : Server × Option Status :=
  ({ server with heap := result.1 }, result.2)

/-- A request for an open key that was not deleted. -/
def Server.withKey (k : Nat) (act : Except Fault (Heap × Option Status)) :
    Except Fault (Server × Option Status) :=
  match server.heap.getHkeyObj k with
  | .error status => .ok (server, some status)
  | .ok _ => act.map server.reply

/-- The handler of `create_key`. -/
def Server.createKey (parent : Option Nat) (name : Name) (options : Options) (access : Access)
    (attr : Attributes) (cls : Option Name) : Except Fault (Server × Option Status) :=
  match parent.mapM server.heap.getHkeyObj with
  | .error status => .ok (server, some status)
  | .ok parent => do
    match ← server.heap.createKey parent name options access attr with
    | (heap, .error status) => return server.reply (heap, some status)
    | (heap, .ok opened) =>
      let heap := match cls with
        | some cls => heap.setClass opened.key cls
        | none => heap
      return server.reply (heap, opened.status)

def Server.periodicSave (modif : Nat → Int) (arch : Arch) (files : Nat → FileResult) :
    Except Fault Server :=
  server.branches.foldlM (fun server k => server.saveBranch modif arch k (files k)) server

/-- A step of the loading of a file, on a key that exists. -/
def Server.load (k : Nat) (act : Except Fault (Heap × Option Status)) :
    Except Fault (Server × Option Status) :=
  if server.heap.next ≤ k then .ok (server, some .invalidHandle) else act.map server.reply

def Server.handle : Request → Except Fault (Server × Option Status)
  | .createKey parent name options access attr cls =>
    server.createKey parent name options access attr cls
  | .renameKey k name => server.withKey k (server.heap.renameKey k name)
  | .deleteKey k => server.load k (server.heap.deleteKey 1 false k)
  | .unloadRegistry k =>
    server.withKey k (server.heap.deleteKey (2 * server.heap.next + 1) true k)
  | .setKeyValue k name type data => server.withKey k (.ok (server.heap.setValue k name type data))
  | .deleteKeyValue k name => server.withKey k (.ok (server.heap.deleteValue k name))
  | .periodicSave modif arch files => (server.periodicSave modif arch files).map (·, none)
  | .loadKey base path =>
    server.load base ((server.heap.createKeyRecursive base path).map fun (heap, _) => (heap, none))
  | .loadValue k name type data => server.load k (.ok (server.heap.storeValue k name type data))
  | .loadLink k =>
    server.load k (.ok (server.heap.setFlags k fun flags => { flags with symlink := true }, none))
  | .setShared k =>
    server.load k (.ok (server.heap.setFlags k fun flags => { flags with wowshare := true }, none))
  | .setPredefined k =>
    server.load k (.ok (server.heap.setFlags k fun flags => { flags with predef := true }, none))
  | .addBranch k => .ok ({ server with branches := server.branches ++ [k] }, none)

/-- The state after a request. -/
def Server.step (request : Request) : Except Fault Server :=
  (server.handle request).map Prod.fst

end Handlers

/-- The server when the root key has been created. -/
def Server.initial (casemap : CaseMap) (rounds : Nat) : Server where
  heap :=
    { casemap
      rounds
      key := fun k => if k = 0 then { objName := some ⟨registryName, none⟩, flags := { dirty := true } }
        else {}
      next := 1
      linked := fun k p same => by
        by_cases eq : k = 0
        · rw [if_pos eq] at same
          cases same
        · rw [if_neg eq] at same
          cases same
      children := fun k c member => by
        by_cases eq : k = 0
        · rw [if_pos eq] at member
          cases member
        · rw [if_neg eq] at member
          cases member }
  branches := []
  saved := fun _ => none

end FreeWindows.Registry
