/-
**Access control lists** (`dlls/ntdll/sec.c`).

An ACL is a block of memory: a header with the revision, the size of the block and the number of entries,
and then the entries, each with its size in its own header. The functions find an entry by going from one to
the next.

The model works on the bytes. A pointer into the block is its distance from the start; an access that is not
in the block has no result.
-/

import FreeWindows.Lib.Buffer

namespace FreeWindows.Rtl.Acl

open Lib

inductive NtStatus
  | success
  | invalidParameter
  | bufferTooSmall
  | invalidSid
  | revisionMismatch
  | invalidAcl
  | allottedSpaceExceeded
deriving DecidableEq, Repr

def minAclRevision : Nat := 2

def maxAclRevision : Nat := 4

def sidRevision : Nat := 1

def sidMaxSubAuthorities : Nat := 15

def sizeofAcl : Nat := 8

def sizeofAceHeader : Nat := 4

/-! ### Fields -/

section Fields

variable (acl : List UInt8)

def aclRevision : Option Nat := numberAt acl 0 1

def aclSize : Option Nat := numberAt acl 2 2

def aceCount : Option Nat := numberAt acl 4 2

/-- `AceSize` of the entry at `ace`. -/
def aceSize (ace : Nat) : Option Nat := numberAt acl (ace + 2) 2

end Fields

/-! ### SIDs -/

def rtlValidSid (sid : List UInt8) : Option Bool := do
  let revision ← numberAt sid 0 1
  let subAuthorityCount ← numberAt sid 1 1
  some (revision = sidRevision ∧ subAuthorityCount ≤ sidMaxSubAuthorities)

def rtlLengthSid (sid : List UInt8) : Option Nat := do
  let subAuthorityCount ← numberAt sid 1 1
  some (subAuthorityCount * 4 + 8)

/-! ### Lists -/

/-- `RtlCreateAcl`, on a block of the given size. -/
def rtlCreateAcl (acl : List UInt8) (rev : Nat) : Option (List UInt8 × NtStatus) :=
  let size := acl.length
  if rev < minAclRevision ∨ rev > maxAclRevision then some (acl, .invalidParameter)
  else if size < sizeofAcl then some (acl, .bufferTooSmall)
  else if size > 0xffff then some (acl, .invalidParameter)
  else do
    let acl ← store acl 0 (List.replicate sizeofAcl 0)
    let acl ← store acl 0 (le 1 rev)
    let acl ← store acl 2 (le 2 size)
    let acl ← store acl 4 (le 2 0)
    some (acl, .success)

/-- The loop of `RtlValidAcl`, with `left` entries to go. -/
def validLoop (acl : List UInt8) (size : Nat) : (left ace : Nat) → Option Bool
  | 0, ace => some (ace ≤ size)
  | left + 1, ace =>
    if ace > size then some false
    else do
      let length ← aceSize acl ace
      validLoop acl size left (ace + length)

def rtlValidAcl (acl : List UInt8) : Option Bool := do
  let revision ← aclRevision acl
  if revision < minAclRevision ∨ revision > maxAclRevision then some false
  else
    let size ← aclSize acl
    let count ← aceCount acl
    validLoop acl size count sizeofAcl

/-- The loop of `RtlFirstFreeAce`: `none` is the result `FALSE`. -/
def freeLoop (acl : List UInt8) (size : Nat) : (left ace : Nat) → Option (Option Nat)
  | 0, ace => some (some ace)
  | left + 1, ace =>
    if ace ≥ size then some none
    else do
      let length ← aceSize acl ace
      freeLoop acl size left (ace + length)

/-- `RtlFirstFreeAce`: the return value, and the pointer that is stored. -/
def rtlFirstFreeAce (acl : List UInt8) : Option (Bool × Option Nat) := do
  let size ← aclSize acl
  let count ← aceCount acl
  match ← freeLoop acl size count sizeofAcl with
  | none => some (false, none)
  | some ace => some (true, if ace ≤ size then some ace else none)

/-- The arguments of `add_access_ace`. -/
structure AccessAce where
  aceRevision : Nat
  aceFlags : Nat
  accessMask : Nat
  sid : List UInt8
  aceType : Nat
deriving DecidableEq, Repr

/-- `RtlCopySid` to a place in the block, which has `length` bytes. -/
def rtlCopySid (acl : List UInt8) (dest length : Nat) (sid : List UInt8) : Option (List UInt8) := do
  let valid ← rtlValidSid sid
  let needed ← rtlLengthSid sid
  if ¬valid ∨ length < needed then some acl
  else
    let bytes ← load sid 0 needed
    store acl dest bytes

/-- The new entry is filled in, and the header is changed. -/
def fillAce (acl : List UInt8) (ace length aceSize : Nat) (new : AccessAce) : Option (List UInt8) := do
  let acl ← store acl ace (le 1 new.aceType)
  let acl ← store acl (ace + 1) (le 1 new.aceFlags)
  let acl ← store acl (ace + 2) (le 2 aceSize)
  let acl ← store acl (ace + 4) (le 4 new.accessMask)
  let acl ← rtlCopySid acl (ace + 8) length new.sid
  let revision ← aclRevision acl
  let acl ← store acl 0 (le 1 (max revision new.aceRevision))
  let count ← aceCount acl
  store acl 4 (le 2 (count + 1))

def addAccessAce (acl : List UInt8) (new : AccessAce) : Option (List UInt8 × NtStatus) := do
  if ¬(← rtlValidSid new.sid) then some (acl, .invalidSid)
  else if (← aclRevision acl) > maxAclRevision ∨ new.aceRevision > maxAclRevision then
    some (acl, .revisionMismatch)
  else if ¬(← rtlValidAcl acl) then some (acl, .invalidAcl)
  else
    match ← rtlFirstFreeAce acl with
    | (false, _) => some (acl, .invalidAcl)
    | (true, none) => some (acl, .allottedSpaceExceeded)
    | (true, some ace) =>
      let length ← rtlLengthSid new.sid
      let aceSize := sizeofAceHeader + 4 + length
      if ace + aceSize > (← aclSize acl) then some (acl, .allottedSpaceExceeded)
      else
        let acl ← fillAce acl ace length aceSize new
        some (acl, .success)

/-- The loop of `RtlGetAce`. -/
def getLoop (acl : List UInt8) : (index ace : Nat) → Option Nat
  | 0, ace => some ace
  | index + 1, ace => do
    let length ← aceSize acl ace
    getLoop acl index (ace + length)

/-- `RtlGetAce`: the entry, or `STATUS_INVALID_PARAMETER`. -/
def rtlGetAce (acl : List UInt8) (index : Nat) : Option (Except NtStatus Nat) := do
  if index ≥ (← aceCount acl) then some (.error .invalidParameter)
  else
    let ace ← getLoop acl index sizeofAcl
    some (.ok ace)

/-- The length of so many entries. -/
def restLoop (acl : List UInt8) : (left ace len : Nat) → Option Nat
  | 0, _, len => some len
  | left + 1, ace, len => do
    let length ← aceSize acl ace
    restLoop acl left (ace + length) (len + length)

def rtlDeleteAce (acl : List UInt8) (index : Nat) : Option (List UInt8 × NtStatus) := do
  match ← rtlGetAce acl index with
  | .error status => some (acl, status)
  | .ok ace =>
    let length ← aceSize acl ace
    let count ← aceCount acl
    let len ← restLoop acl (count - (index + 1)) (ace + length) 0
    let rest ← load acl (ace + length) len
    let acl ← store acl ace rest
    let acl ← store acl 4 (le 2 (count - 1))
    some (acl, .success)

/-! ### Operations -/

inductive Action
  | add (new : AccessAce)
  | delete (index : Nat)
deriving DecidableEq, Repr

def step (acl : List UInt8) : Action → Option (List UInt8 × NtStatus)
  | .add new => addAccessAce acl new
  | .delete index => rtlDeleteAce acl index

end FreeWindows.Rtl.Acl
