/-
**Looking up keys by path.**

`lookup_named_object` walks along a path, one object after the other, until an object has nothing to
look up any more; it returns that object and the part of the path that is left. Keys look up one
path element in their subkeys (`key_lookup_name`), follow symbolic links, which are looked up from
the root of the object names, and redirect 32-bit requests to `Wow6432Node`.

Of the objects that are not keys, only the root directory is modelled, with the root key as its only
entry. The loop has no limit in the server, and may run for ever on links that lead back to a shared key;
it is cut off after the rounds of the heap, which can be any number.
-/

import FreeWindows.Lib.Run
import FreeWindows.Registry.Keys

namespace FreeWindows.Registry

open Lib Heap

def backslash : WChar := 0x5c

/-- The units of an ASCII text. -/
def wide (text : String) : Name := text.toList.map fun c => UInt16.ofNat c.toNat

def wow6432nodeName : Name := wide "Wow6432Node"

def symlinkValueName : Name := wide "SymbolicLinkValue"

def registryName : Name := wide "REGISTRY"

def maxNameLen : Nat := 256

def getPathElement (name : Name) : Name := name.takeWhile (· ≠ backslash)

def isWow6432node (casemap : CaseMap) (name : Name) : Bool :=
  let element := getPathElement name
  element.length = wow6432nodeName.length ∧ memicmpStrW casemap element wow6432nodeName = 0

/-- The units that pairs of bytes make up, the low byte first. -/
def unitsOfBytes : List UInt8 → Name
  | low :: high :: rest => (low.toUInt16 ||| (high.toUInt16 <<< 8)) :: unitsOfBytes rest
  | _ => []

/-- The `OBJ_` attributes of a request, with `OBJ_KEY_WOW64`. -/
structure Attributes where
  openIf : Bool := false
  openLink : Bool := false
  caseInsensitive : Bool := false
  keyWow64 : Bool := false
deriving DecidableEq, Repr

/-- An object with a name. -/
inductive Node
  | directory
  | key (k : Nat)
deriving DecidableEq, Repr

/-- What a `lookup_name` operation does with the name, which is `none` once all of it is used up: it
goes on to another object, or stops at its own one. -/
inductive Round
  | stop (name : Option Name)
  | move (node : Node) (name : Option Name)
deriving DecidableEq, Repr

/-- How many recursive calls `lookup_named_object` accepts. -/
def maxRecursion : Nat := 33

/-- Whether a name is left. -/
def isEmpty (name : Option Name) : Bool := (name.getD []).isEmpty

namespace Heap

variable (heap : Heap)

/-- The index that `find_subkey` returns. -/
def findSubkey (k : Nat) (name : Name) : Place :=
  findName heap.casemap (fun c => (heap.key c).name) (heap.key k).subkeys name

/-- The key that `find_subkey` returns. -/
def subkey (k : Nat) (name : Name) : Option Nat :=
  match heap.findSubkey k name with
  | .found index => (heap.key k).subkeys[index]?
  | .gap _ => none

def findValue (k : Nat) (name : Name) : Place :=
  findName heap.casemap KeyValue.name (heap.key k).values name

/-- The path that a symbolic link leads to. -/
def linkTarget (k : Nat) : Option Name :=
  match heap.findValue k symlinkValueName with
  | .found index =>
    ((heap.key k).values[index]?.map fun value => unitsOfBytes value.data).filter
      (·.head? = some backslash)
  | .gap _ => none

section Rounds

variable (resolve : Name → Except Status (Node × Option Name)) (attr : Attributes)

/-- Where a symbolic link leads: for a 32-bit request, a shared key is replaced by its parent. -/
def enterTarget (node : Node) (name : Option Name) : Round :=
  match node with
  | .directory => .move node name
  | .key t =>
    match (heap.key t).parent with
    | some p =>
      if (heap.key t).flags.wowshare ∧ attr.keyWow64 ∧ name = none then .move (.key p) name
      else .move node name
    | none => .move node name

/-- The branch of `key_lookup_name` for symbolic links. -/
def linkLookupName (k : Nat) (name : Option Name) : Except Status Round :=
  if isEmpty name ∧ attr.openLink then .ok (.stop name)
  else
    match heap.linkTarget k with
    | none => .error .objectNameNotFound
    | some target => do
      let (node, left) ← resolve target
      if ¬isEmpty name ∧ ¬isEmpty left then .error .objectNameNotFound
      else .ok (heap.enterTarget attr node (if isEmpty name then left else name))

/-- What `key_lookup_name` does once the subkey is found. -/
def enterSubkey (found : Nat) (rest : Name) : Round :=
  if rest = [] then .move (.key found) none
  else
    match (heap.key found).wow6432node with
    | some w =>
      if attr.keyWow64 ∧ ¬isWow6432node heap.casemap rest then .move (.key w) (some rest)
      else .move (.key found) (some rest)
    | none => .move (.key found) (some rest)

def keyLookupName (k : Nat) (name : Option Name) : Except Status Round :=
  if (heap.key k).flags.deleted then .error .keyDeleted
  else if (heap.key k).flags.symlink then heap.linkLookupName resolve attr k name
  else
    match name with
    | none => .ok (.stop none)
    | some name =>
      let tmp := getPathElement name
      let rest := (name.drop tmp.length).dropWhile (· = backslash)
      if tmp.length > maxNameLen then .error .invalidParameter
      else
        match heap.subkey k tmp with
        | some found => .ok (heap.enterSubkey attr found rest)
        | none =>
          -- the 64-bit parent of a shared key
          match (heap.key k).parent.filter fun _ => (heap.key k).flags.wowshare ∧ attr.keyWow64 with
          | some p =>
            match heap.subkey p tmp with
            | some found => .ok (heap.enterSubkey attr found rest)
            | none => .ok (.move (.key p) (some name))
          | none => if rest ≠ [] then .error .objectNameNotFound else .ok (.stop (some tmp))

/-- `directory_lookup_name`, for the root directory. -/
def directoryLookupName (name : Option Name) : Except Status Round :=
  match name with
  | none => .ok (.stop none)
  | some name =>
    let tmp := getPathElement name
    let same := if attr.caseInsensitive then
        tmp.length = registryName.length ∧ memicmpStrW heap.casemap tmp registryName = 0
      else tmp = registryName
    if same then
      .ok (.move (.key 0) (if tmp.length < name.length then some (name.drop (tmp.length + 1)) else none))
    else if tmp = [] then .error .objectNameInvalid
    else if tmp.length < name.length then .error .objectPathNotFound
    else .ok (.stop (some name))

/-- The `lookup_name` operation of an object. -/
def lookupName (node : Node) (name : Option Name) : Except Status Round :=
  match node with
  | .directory => heap.directoryLookupName attr name
  | .key k => heap.keyLookupName resolve attr k name

/-- The loop of `lookup_named_object`. -/
def lookupLoop : (rounds : Nat) → Node → Option Name → Except Status (Node × Option Name)
  | 0, _, _ => .error .endless
  | rounds + 1, node, name => do
    let round ← heap.lookupName resolve attr node name
    match round with
    | .stop name => .ok (node, name)
    | .move node name => lookupLoop rounds node name

end Rounds

/-- The object that a path starts at, and the path from there. -/
def startOf (root : Option Nat) (name : Name) : Except Status (Node × Name) :=
  match root with
  | some k =>
    if name.head? = some backslash then .error .objectPathSyntaxBad else .ok (.key k, name)
  | none =>
    match name with
    | [] => .error .objectPathSyntaxBad
    | first :: rest =>
      if first ≠ backslash then .error .objectPathSyntaxBad else .ok (.directory, rest)

/-- `lookup_named_object`, with as many recursive calls left as `depth` says. -/
def lookupNamedObject : (depth : Nat) → Option Nat → Name → Attributes →
    Except Status (Node × Option Name)
  | 0, root, name, _ => do
    let _ ← startOf root name
    .error .invalidParameter
  | depth + 1, root, name, attr => do
    let (node, name) ← startOf root name
    if name = [] then .ok (node, some [])
    else
      let resolve := fun target => lookupNamedObject depth none target { caseInsensitive := true }
      heap.lookupLoop resolve attr heap.rounds node (some name)

end Heap

/-! ### What a lookup returns -/

/-- A key of that name is missing below `p`, and one could be created there. -/
structure Missing (heap : Heap) (p : Nat) (name : Name) : Prop where
  element : getPathElement name = name
  short : name.length ≤ maxNameLen
  missing : heap.subkey p name = none
  live : (heap.key p).flags.deleted = false
  notLink : (heap.key p).flags.symlink = false

/-- If a part of the path is left, it is the name of a missing key. -/
def Landed (heap : Heap) (node : Node) (left : Option Name) : Prop :=
  isEmpty left = true ∨ ∀ p, node = .key p → Missing heap p (left.getD [])

section Landed

variable {heap : Heap} {resolve : Name → Except Status (Node × Option Name)} {attr : Attributes}
  {left : Option Name}

theorem Heap.enterTarget_moves (heap : Heap) (attr : Attributes) (node : Node) (name : Option Name) :
    ∃ node' name', heap.enterTarget attr node name = .move node' name' := by
  unfold enterTarget
  split
  · exact ⟨_, _, rfl⟩
  · split
    · split <;> exact ⟨_, _, rfl⟩
    · exact ⟨_, _, rfl⟩

theorem Heap.enterSubkey_moves (heap : Heap) (attr : Attributes) (found : Nat) (rest : Name) :
    ∃ node name, heap.enterSubkey attr found rest = .move node name := by
  unfold enterSubkey
  split
  · exact ⟨_, _, rfl⟩
  · split
    · split <;> exact ⟨_, _, rfl⟩
    · exact ⟨_, _, rfl⟩

variable {name : Option Name}

/-- A lookup stops at a link only if the link itself was asked for. -/
theorem linkLookupName_stop {k : Nat}
    (stops : heap.linkLookupName resolve attr k name = .ok (.stop left)) : isEmpty left = true := by
  unfold linkLookupName at stops
  split at stops
  next empty =>
    cases stops
    exact empty.1
  next =>
    split at stops
    · cases stops
    next target _ =>
      obtain ⟨⟨node, rest⟩, _, found⟩ := bind_eq_ok.mp stops
      dsimp only at found
      split at found
      · cases found
      · obtain ⟨node', name', moves⟩ := heap.enterTarget_moves attr node
          (if isEmpty name then rest else name)
        rw [moves] at found
        cases found

/-- A key at which a lookup stops has no subkey of the name that is left. -/
theorem keyLookupName_stop {k : Nat}
    (stops : heap.keyLookupName resolve attr k name = .ok (.stop left)) :
    Landed heap (.key k) left := by
  unfold keyLookupName at stops
  split at stops
  · cases stops
  next live =>
  split at stops
  · exact .inl (linkLookupName_stop stops)
  next notLink =>
  split at stops
  · cases stops
    exact .inl rfl
  next path =>
  dsimp only at stops
  split at stops
  · cases stops
  next short =>
  split at stops
  next found _ =>
    obtain ⟨node, rest, moves⟩ := heap.enterSubkey_moves attr found
      ((path.drop (getPathElement path).length).dropWhile (· = backslash))
    rw [moves] at stops
    cases stops
  next missing =>
  split at stops
  next p _ =>
    split at stops
    next found _ =>
      obtain ⟨node, rest, moves⟩ := heap.enterSubkey_moves attr found
        ((path.drop (getPathElement path).length).dropWhile (· = backslash))
      rw [moves] at stops
      cases stops
    · cases stops
  next =>
    split at stops
    · cases stops
    · cases stops
      right
      rintro p same
      cases same
      exact ⟨List.takeWhile_idem, not_lt.mp short, missing, Bool.eq_false_iff.mpr live,
        Bool.eq_false_iff.mpr notLink⟩

theorem lookupLoop_landed {rounds : Nat} {node node' : Node}
    (found : heap.lookupLoop resolve attr rounds node name = .ok (node', left)) :
    Landed heap node' left := by
  induction rounds generalizing node name with
  | zero => cases found
  | succ rounds ih =>
    obtain ⟨round, once, rest⟩ := bind_eq_ok.mp found
    cases round with
    | move node name => exact ih rest
    | stop name =>
      cases rest
      cases node' with
      | directory => exact .inr fun p same => nomatch same
      | key k => exact keyLookupName_stop once

/-- **What is left of a path is the name of a missing key.** -/
theorem lookupNamedObject_landed {depth : Nat} {root : Option Nat} {name : Name} {node : Node}
    (found : heap.lookupNamedObject depth root name attr = .ok (node, left)) :
    Landed heap node left := by
  cases depth with
  | zero =>
    obtain ⟨_, _, failed⟩ := bind_eq_ok.mp found
    cases failed
  | succ depth =>
    obtain ⟨⟨start, rest⟩, _, looked⟩ := bind_eq_ok.mp found
    dsimp only at looked
    split at looked
    · cases looked
      exact .inl rfl
    · exact lookupLoop_landed looked

end Landed

end FreeWindows.Registry
