/-
**Named objects of the server** (`server/object.c`, `server/directory.c`).

An object that is created with a name is put into the name space of a directory, a hash table, and keeps a
reference to that directory. `lookup_named_object` walks along a path, one object after the other: a
directory takes an element off the path if it has an entry for it, and other objects take nothing.
`default_get_full_name` goes from an object to its parents.

* objects are blocks of memory: an address is not used again after `free`;
* names are compared with case, and there are no symbolic links;
* allocation does not fail. The references that a walk takes are given back when it goes on, and are left
  out. A failed assertion ends the server;
* `held` is not part of the program: the references that its clients have.
-/

import FreeWindows.Registry.Lookup

namespace FreeWindows.Objects

open Registry Function

/-- The operations of an object: those of directories, or others, with `no_lookup_name`. -/
inductive Ops
  | directory
  | other (type : Nat)
deriving DecidableEq, Repr

/-- `struct object_name`, in an object. -/
structure ObjectName where
  name : Name
  parent : Nat
deriving DecidableEq, Repr

/-- `struct object_name`, in a name space. -/
structure Entry where
  name : Name
  obj : Nat
deriving DecidableEq, Repr

structure Namespace where
  hashSize : Nat
  names : Nat → List Entry

/-- `struct object`, and the name space of a directory. -/
structure Object where
  ops : Ops
  refcount : Nat
  name : Option ObjectName
  entries : Namespace

structure State where
  objects : Nat → Option Object
  next : Nat
  root : Nat
  held : Nat → Nat

inductive Status
  | objectPathSyntaxBad
  | objectNameInvalid
  | objectPathNotFound
  | objectTypeMismatch
  | objectNameCollision
deriving DecidableEq, Repr

/-- What ends the server: a failed assertion, and the use of memory that is not there. -/
inductive Crash
  | assertion
  | memory
deriving DecidableEq, Repr

inductive Failure
  | status (status : Status)
  | crash (crash : Crash)
deriving DecidableEq, Repr

/-! ### Name spaces -/

def hashStrW (casemap : CaseMap) (str : Name) (hashSize : Nat) : Nat :=
  str.foldl (fun hash unit => (hash * 65599 + (casemap unit).toNat) % 2 ^ 32) 0 % hashSize

namespace Namespace

variable (casemap : CaseMap) (ns : Namespace)

def createNamespace (hashSize : Nat) : Namespace := ⟨hashSize, fun _ => []⟩

def add (entry : Entry) : Namespace :=
  let hash := hashStrW casemap entry.name ns.hashSize
  { ns with names := update ns.names hash (entry :: ns.names hash) }

/-- `list_remove`: the entry of an object is taken out of the list that it is in. -/
def remove (obj : Nat) : Namespace :=
  { ns with names := fun hash => (ns.names hash).filter fun entry => entry.obj ≠ obj }

def findObject (name : Name) : Option Nat :=
  if name = [] then none
  else ((ns.names (hashStrW casemap name ns.hashSize)).find? fun entry => entry.name = name).map Entry.obj

end Namespace

/-! ### Paths -/

/-- What is left of a path: a `NULL` pointer for an empty path, a string without an address behind the last
element, or a string. -/
inductive Cursor
  | absent
  | consumed
  | rest (str : Name)
deriving DecidableEq, Repr

def Cursor.size : Cursor → Nat
  | rest str => str.length + 1
  | _ => 0

def Cursor.left : Cursor → Name
  | rest str => str
  | _ => []

namespace State

variable (casemap : CaseMap) (s : State)

def directoryLookupName (entries : Namespace) : Cursor → Except Failure (Option (Nat × Cursor))
  | .absent => .ok none
  | .consumed => .ok none
  | .rest str =>
    let element := getPathElement str
    match entries.findObject casemap element with
    | some found =>
      if element.length < str.length then .ok (some (found, .rest (str.drop (element.length + 1))))
      else .ok (some (found, .consumed))
    | none =>
      if element.length = 0 then .error (.status .objectNameInvalid)
      else if element.length < str.length then .error (.status .objectPathNotFound)
      else .ok none

def noLookupName : Cursor → Except Failure (Option (Nat × Cursor))
  | .absent => .error (.status .objectTypeMismatch)
  | _ => .ok none

/-- `ops->lookup_name`. -/
def lookupName (parent : Nat) (cursor : Cursor) : Except Failure (Option (Nat × Cursor)) :=
  match s.objects parent with
  | none => .error (.crash .memory)
  | some obj =>
    match obj.ops with
    | .directory => directoryLookupName casemap obj.entries cursor
    | .other _ => noLookupName cursor

variable {casemap s}

theorem size_directoryLookupName {entries : Namespace} {cursor next : Cursor} {found : Nat}
    (step : directoryLookupName casemap entries cursor = .ok (some (found, next))) :
    next.size < cursor.size := by
  cases cursor with
  | absent => nomatch step
  | consumed => nomatch step
  | rest str =>
    simp only [directoryLookupName] at step
    split at step
    · split_ifs at step with more <;> cases step
      · simp only [Cursor.size, List.length_drop]
        omega
      · exact Nat.succ_pos _
    · split_ifs at step
      nomatch step

/-- Every step takes something off the path. -/
theorem size_lookupName {parent found : Nat} {cursor next : Cursor}
    (step : s.lookupName casemap parent cursor = .ok (some (found, next))) : next.size < cursor.size := by
  unfold lookupName at step
  split at step
  · nomatch step
  · split at step
    · exact size_directoryLookupName step
    · cases cursor <;> nomatch step

variable (casemap s)

/-- The loop of `lookup_named_object`. -/
def lookupLoop (parent : Nat) (cursor : Cursor) : Except Failure (Nat × Cursor) :=
  match step : s.lookupName casemap parent cursor with
  | .error failure => .error failure
  | .ok none => .ok (parent, cursor)
  | .ok (some (found, next)) =>
    have := size_lookupName step
    lookupLoop found next
termination_by cursor.size

/-- The object that the path leads to, and the name that is left. -/
def lookupNamedObject (root : Option Nat) (name : Name) : Except Failure (Nat × Name) := do
  let (parent, str) ← (match root with
    | some root =>
      if name.head? = some backslash then .error (.status .objectPathSyntaxBad) else .ok (root, name)
    | none =>
      if name.head? ≠ some backslash then .error (.status .objectPathSyntaxBad)
      else .ok (s.root, name.drop 1) : Except Failure (Nat × Name))
  let (obj, cursor) ← s.lookupLoop casemap parent (if str = [] then .absent else .rest str)
  .ok (obj, cursor.left)

/-! ### Objects -/

def set (id : Nat) (obj : Option Object) : State := { s with objects := update s.objects id obj }

def get (id : Nat) : Except Failure Object :=
  match s.objects id with
  | some obj => .ok obj
  | none => .error (.crash .memory)

def grabObject (id : Nat) : Except Failure State := do
  let obj ← s.get id
  if obj.refcount < 2 ^ 31 - 1 then .ok (s.set id (some { obj with refcount := obj.refcount + 1 }))
  else .error (.crash .assertion)

/-- A new object with one reference. -/
def allocObject (ops : Ops) : State :=
  { s with
    objects := update s.objects s.next (some ⟨ops, 1, none, .createNamespace 0⟩), next := s.next + 1 }

/-- `directory_link_name`, after which the object has the name. -/
def linkName (id : Nat) (name : Name) (parent : Nat) : Except Failure State := do
  let dir ← s.get parent
  if dir.ops ≠ .directory then .error (.status .objectTypeMismatch)
  else
    let s := s.set parent (some { dir with entries := dir.entries.add casemap ⟨name, id⟩ })
    let s ← s.grabObject parent
    let obj ← s.get id
    .ok (s.set id (some { obj with name := some ⟨name, parent⟩ }))

end State

/-- The attributes of a new object. -/
structure Attributes where
  openIf : Bool
  permanent : Bool
deriving DecidableEq, Repr

namespace State

variable (casemap : CaseMap) (s : State)

/-- A permanent object has one more reference (`make_object_permanent`, `grab_object`). -/
def makePermanent (id : Nat) (attributes : Attributes) : Except Failure State :=
  if attributes.permanent then s.grabObject id else .ok s

/-- The object, and whether it has existed before. -/
def createNamedObject (parent : Option Nat) (ops : Ops) (name : Name) (attributes : Attributes) :
    Except Failure (State × Nat × Bool) := do
  if name = [] then
    let s' ← (s.allocObject ops).makePermanent s.next attributes
    .ok (s', s.next, false)
  else
    let (obj, newName) ← s.lookupNamedObject casemap parent name
    if newName = [] then
      let existing ← s.get obj
      if attributes.openIf then
        if existing.ops = ops then
          let s' ← s.grabObject obj
          .ok (s', obj, true)
        else .error (.status .objectTypeMismatch)
      else .error (.status .objectNameCollision)
    else
      let s' ← (s.allocObject ops).linkName casemap s.next newName obj
      let s' ← s'.makePermanent s.next attributes
      .ok (s', s.next, false)

/-- A new directory gets a name space (`create_directory`). -/
def createDirectory (parent : Option Nat) (name : Name) (attributes : Attributes) (hashSize : Nat) :
    Except Failure (State × Nat × Bool) := do
  let (s, id, existed) ← s.createNamedObject casemap parent .directory name attributes
  if existed then .ok (s, id, existed)
  else
    let obj ← s.get id
    .ok (s.set id (some { obj with entries := .createNamespace hashSize }), id, existed)

/-- `release_object`. An object without references is taken out of its directory (`unlink_named_object`),
which has a reference less then. There are at most as many objects above one as its address says. -/
def releaseObject : (depth : Nat) → State → Nat → Except Failure State
  | 0, _, _ => .error (.crash .memory)
  | depth + 1, s, id => do
    let obj ← s.get id
    if obj.refcount = 0 then .error (.crash .assertion)
    else if obj.refcount - 1 ≠ 0 then .ok (s.set id (some { obj with refcount := obj.refcount - 1 }))
    else
      let s := s.set id (some { obj with refcount := 0, name := none })
      match obj.name with
      | none => .ok (s.set id none)
      | some name =>
        let dir ← s.get name.parent
        let s := s.set name.parent (some { dir with entries := dir.entries.remove id })
        let s ← releaseObject depth s name.parent
        .ok (s.set id none)

/-! ### Full names -/

/-- The names on the way from an object to the root, up to an object without a name. -/
def names : (depth : Nat) → Nat → List Name
  | 0, _ => []
  | depth + 1, id =>
    match (s.objects id).bind Object.name with
    | some name => name.name :: names depth name.parent
    | none => []

/-- The second loop of `default_get_full_name`: the names are written in front of each other, where there are
`len` bytes left in the block. -/
def writeNames : (len : Nat) → (written : Name) → List Name → Except Crash Name
  | _, written, [] => .ok written
  | len, written, name :: rest =>
    if len < 2 * name.length + 2 then .error .memory
    else writeNames (len - (2 * name.length + 2)) (backslash :: name ++ written) rest

/-- The length in bytes, a 32-bit number. -/
def nameLength (names : List Name) : Nat :=
  names.foldl (fun len name => (len + (2 * name.length + 2)) % 2 ^ 32) 0

/-- The full name, and whether it is too long for the caller. -/
def defaultGetFullName (id max : Nat) : Except Crash (Option (Name × Bool)) :=
  let names := s.names (id + 1) id
  let len := nameLength names
  if len = 0 then .ok none
  else do
    let path ← writeNames len [] names
    .ok (some (path, len > max))

end State

/-! ### Requests -/

inductive Action
  | create (parent : Option Nat) (ops : Ops) (name : Name) (attributes : Attributes) (hashSize : Nat)
  | release (id : Nat)

/-- The functions that create objects, `create_directory` and those of the other types. -/
def State.create (casemap : CaseMap) (s : State) (parent : Option Nat) (ops : Ops) (name : Name)
    (attributes : Attributes) (hashSize : Nat) : Except Failure (State × Nat × Bool) :=
  match ops with
  | .directory => s.createDirectory casemap parent name attributes hashSize
  | .other _ => s.createNamedObject casemap parent ops name attributes

/-- The client gets a reference to the object, or two if the object is permanent. -/
def State.hold (s : State) (id references : Nat) : State :=
  { s with held := update s.held id (s.held id + references) }

/-- A request that fails has no effect. Clients use the objects that they have references to, and the server
the root directory. -/
def State.step (casemap : CaseMap) (s : State) : Action → Except Crash State
  | .create parent ops name attributes hashSize =>
    if parent.any fun id => s.held id = 0 ∧ id ≠ s.root then .ok s
    else
      match s.create casemap parent ops name attributes hashSize with
      | .error (.status _) => .ok s
      | .error (.crash crash) => .error crash
      | .ok (s, id, existed) => .ok (s.hold id (if attributes.permanent ∧ ¬existed then 2 else 1))
  | .release id =>
    if s.held id = 0 then .ok s
    else
      match { s with held := update s.held id (s.held id - 1) }.releaseObject (id + 1) id with
      | .error (.status _) => .ok s
      | .error (.crash crash) => .error crash
      | .ok s => .ok s

/-- The root directory, which the server has a reference to. -/
def initRootDirectory (hashSize : Nat) : State where
  objects := update (fun _ => none) 0 (some ⟨.directory, 1, none, .createNamespace hashSize⟩)
  next := 1
  root := 0
  held _ := 0

end FreeWindows.Objects
