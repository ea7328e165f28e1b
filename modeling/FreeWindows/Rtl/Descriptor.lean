/-
**Copies of security descriptors** (`dlls/ntdll/sec.c`).

An absolute descriptor holds four pointers, and its control word says whether the two to ACLs count. A
pointer is NULL or stands for the memory behind it; an access through NULL has no result.

* `rtlCopySecurityDescriptor_iff`: a descriptor that the setters built is copied with all its parts if and
  only if no ACL that is present is NULL and the heap has room for the copies.
-/

import FreeWindows.Rtl.Acl.Model

namespace FreeWindows.Rtl.Descriptor

open Lib Acl Option
open Function (update)

inductive NtStatus
  | success
  | unknownRevision
  | invalidParameter
  | invalidSecurityDescr
deriving DecidableEq, Repr

/-- A control word, by its bits. -/
abbrev Control := Fin 16 → Bool

def seOwnerDefaulted : Fin 16 := 0

def seGroupDefaulted : Fin 16 := 1

def seDaclPresent : Fin 16 := 2

def seDaclDefaulted : Fin 16 := 3

def seSaclPresent : Fin 16 := 4

def seSaclDefaulted : Fin 16 := 5

def seRmControlValid : Fin 16 := 14

def seSelfRelative : Fin 16 := 15

inductive Part
  | owner
  | group
  | sacl
  | dacl
deriving DecidableEq, Repr

/-- `RtlValidSid` and `RtlValidAcl`. -/
def Part.check : Part → List UInt8 → Option Bool
  | owner | group => rtlValidSid
  | sacl | dacl => rtlValidAcl

/-- `RtlLengthSid` and the field `AclSize`. -/
def Part.size : Part → List UInt8 → Option Nat
  | owner | group => rtlLengthSid
  | sacl | dacl => aclSize

/-- The memory from a valid SID or ACL on; `bytes` are its own. -/
structure Valid (part : Part) where
  memory : List UInt8
  bytes : List UInt8
  check : part.check memory = some true
  size : part.size memory = some bytes.length
  load : load memory 0 bytes.length = some bytes

structure SecurityDescriptor (Block : Part → Type) where
  revision : Nat
  control : Control
  pointer : ∀ part, Option (Block part)

def securityDescriptorRevision : Nat := 1

/-! ### Setters -/

section Setters

variable (sd : SecurityDescriptor Valid)

def rtlCreateSecurityDescriptor (rev : Nat) : SecurityDescriptor Valid × NtStatus :=
  if rev ≠ securityDescriptorRevision then (sd, .unknownRevision)
  else (⟨securityDescriptorRevision, fun _ => false, fun _ => none⟩, .success)

/-- The checks that the four setters of parts begin with. -/
def checked (set : SecurityDescriptor Valid) : SecurityDescriptor Valid × NtStatus :=
  if sd.revision ≠ securityDescriptorRevision then (sd, .unknownRevision)
  else if sd.control seSelfRelative then (sd, .invalidSecurityDescr)
  else (set, .success)

/-- An ACL that is not present leaves the pointer and the other flag as they are. -/
def setAcl (part : Part) (flag defaultedFlag : Fin 16) (present : Bool) (acl : Option (Valid part))
    (defaulted : Bool) : SecurityDescriptor Valid × NtStatus :=
  checked sd <|
    if present then { sd with
      control := update (update sd.control flag true) defaultedFlag defaulted
      pointer := update sd.pointer part acl }
    else { sd with control := update sd.control flag false }

def setSid (part : Part) (defaultedFlag : Fin 16) (sid : Option (Valid part)) (defaulted : Bool) :
    SecurityDescriptor Valid × NtStatus :=
  checked sd { sd with
    control := update sd.control defaultedFlag defaulted
    pointer := update sd.pointer part sid }

def rtlSetDaclSecurityDescriptor := setAcl sd .dacl seDaclPresent seDaclDefaulted

def rtlSetSaclSecurityDescriptor := setAcl sd .sacl seSaclPresent seSaclDefaulted

def rtlSetOwnerSecurityDescriptor := setSid sd .owner seOwnerDefaulted

def rtlSetGroupSecurityDescriptor := setSid sd .group seGroupDefaulted

def immutable : List (Fin 16) :=
  [seOwnerDefaulted, seGroupDefaulted, seDaclPresent, seDaclDefaulted, seSaclPresent, seSaclDefaulted,
    seRmControlValid, seSelfRelative]

def rtlSetControlSecurityDescriptor (ofInterest toSet : Control) : SecurityDescriptor Valid × NtStatus :=
  if ∃ bit ∈ immutable, ofInterest bit ∨ toSet bit then (sd, .invalidParameter)
  else ({ sd with control := fun bit => if ofInterest bit then toSet bit else sd.control bit }, .success)

/-- The calls of the setters, with their arguments. -/
inductive Setter
  | dacl (present : Bool) (acl : Option (Valid .dacl)) (defaulted : Bool)
  | sacl (present : Bool) (acl : Option (Valid .sacl)) (defaulted : Bool)
  | owner (sid : Option (Valid .owner)) (defaulted : Bool)
  | group (sid : Option (Valid .group)) (defaulted : Bool)
  | control (ofInterest toSet : Control)

def Setter.apply : Setter → SecurityDescriptor Valid × NtStatus
  | .dacl present acl defaulted => rtlSetDaclSecurityDescriptor sd present acl defaulted
  | .sacl present acl defaulted => rtlSetSaclSecurityDescriptor sd present acl defaulted
  | .owner sid defaulted => rtlSetOwnerSecurityDescriptor sd sid defaulted
  | .group sid defaulted => rtlSetGroupSecurityDescriptor sd sid defaulted
  | .control ofInterest toSet => rtlSetControlSecurityDescriptor sd ofInterest toSet

/-- The descriptor after `RtlCreateSecurityDescriptor` and some setters. -/
def built (calls : List Setter) : SecurityDescriptor Valid :=
  calls.foldl (fun sd call => (call.apply sd).1) (rtlCreateSecurityDescriptor sd securityDescriptorRevision).1

/-- The setters work on it, and it is copied as an absolute one. -/
structure Absolute : Prop where
  revision : sd.revision = securityDescriptorRevision
  control : sd.control seSelfRelative = false

variable {sd}

theorem Absolute.checked (absolute : Absolute sd) (set : SecurityDescriptor Valid) :
    checked sd set = (set, .success) := by
  simp [Descriptor.checked, absolute.revision, absolute.control]

theorem Absolute.setAcl (absolute : Absolute sd) (part : Part) {flag defaultedFlag : Fin 16}
    (other : seSelfRelative ≠ flag ∧ seSelfRelative ≠ defaultedFlag) (present : Bool) (acl : Option (Valid part))
    (defaulted : Bool) : Absolute (setAcl sd part flag defaultedFlag present acl defaulted).1 := by
  rw [Descriptor.setAcl, absolute.checked]
  refine ⟨?_, ?_⟩ <;> cases present <;> simp [other, absolute.revision, absolute.control]

theorem absolute_built (sd : SecurityDescriptor Valid) (calls : List Setter) : Absolute (built sd calls) := by
  refine List.foldlRecOn calls _ ⟨rfl, rfl⟩ fun sd absolute call _ => ?_
  cases call with
  | dacl present acl defaulted => exact absolute.setAcl .dacl (by decide) present acl defaulted
  | sacl present acl defaulted => exact absolute.setAcl .sacl (by decide) present acl defaulted
  | owner sid defaulted =>
    rw [Setter.apply, rtlSetOwnerSecurityDescriptor, setSid, absolute.checked]
    exact ⟨absolute.revision, absolute.control⟩
  | group sid defaulted =>
    rw [Setter.apply, rtlSetGroupSecurityDescriptor, setSid, absolute.checked]
    exact ⟨absolute.revision, absolute.control⟩
  | control ofInterest toSet =>
    rw [Setter.apply, rtlSetControlSecurityDescriptor]
    split_ifs with some
    · exact absolute
    · have none : ofInterest seSelfRelative = false := by
        by_contra set
        exact some ⟨seSelfRelative, by decide, .inl (Bool.not_eq_false _ ▸ set)⟩
      exact ⟨absolute.revision, by simp [none, absolute.control]⟩

end Setters

/-! ### Copies -/

/-- `RtlAllocateHeap`, for the copy of each part. -/
structure Heap where
  allocate : Part → Nat → Option (List UInt8)
  length : ∀ {part size block}, allocate part size = some block → block.length = size

/-- `RtlCopySid` and `copy_acl`: what the destination points to afterwards. -/
def copyPart (part : Part) (length : Nat) (dest : Option (List UInt8)) (src : List UInt8) :
    Option (Option (List UInt8)) := do
  let valid ← part.check src
  let size ← part.size src
  if ¬valid ∨ length < size then some dest
  else
    let bytes ← load src 0 size
    let dest ← dest
    return some (← store dest 0 bytes)

section Copies

variable (heap : Heap) (src : SecurityDescriptor Valid) (dst : SecurityDescriptor fun _ => List UInt8)
  (part : Part)

/-- Whether a part is copied: a SID if there is one, an ACL if it is present. -/
def SecurityDescriptor.has : Part → Bool
  | .owner => (src.pointer .owner).isSome
  | .group => (src.pointer .group).isSome
  | .sacl => src.control seSaclPresent
  | .dacl => src.control seDaclPresent

/-- One of the four blocks of `RtlCopySecurityDescriptor`. -/
def duplicate : Option (SecurityDescriptor fun _ => List UInt8) :=
  if src.has part then do
    let block ← src.pointer part
    let length ← part.size block.memory
    let copy ← copyPart part length (heap.allocate part length) block.memory
    some { dst with pointer := update dst.pointer part copy }
  else some dst

/-- `RtlCopySecurityDescriptor`, for an absolute descriptor: a self-relative one has another layout. -/
def rtlCopySecurityDescriptor : Option ((SecurityDescriptor fun _ => List UInt8) × NtStatus) :=
  if src.control seSelfRelative then none
  else if src.revision ≠ securityDescriptorRevision then some (dst, .unknownRevision)
  else do
    let dst := ⟨src.revision, src.control, fun part => (src.pointer part).map (·.memory)⟩
    let dst ← duplicate heap src dst .owner
    let dst ← duplicate heap src dst .group
    let dst ← duplicate heap src dst .sacl
    let dst ← duplicate heap src dst .dacl
    some (dst, .success)

/-- The copy of a part finds it and has room. -/
def Copyable : Prop :=
  src.has part → ∃ block, src.pointer part = some block ∧ heap.allocate part block.bytes.length ≠ none

/-- The copied parts are blocks of their own with the same bytes, the other pointers are the same. -/
def SecurityDescriptor.copied : SecurityDescriptor fun _ => List UInt8 :=
  ⟨src.revision, src.control, fun part =>
    if src.has part then (src.pointer part).map (·.bytes) else (src.pointer part).map (·.memory)⟩

variable {heap src part}

theorem duplicate_none (unable : ¬Copyable heap src part) : duplicate heap src dst part = none := by
  obtain ⟨has, none⟩ := Classical.not_imp.mp unable
  rw [duplicate, if_pos has]
  cases found : src.pointer part with
  | none => rfl
  | some block =>
    have full : heap.allocate part block.bytes.length = .none := by_contra fun room => none ⟨block, found, room⟩
    simp [copyPart, block.size, block.check, block.load, full]

theorem duplicate_eq (able : Copyable heap src part) :
    duplicate heap src dst part = some { dst with
      pointer := update dst.pointer part <|
        if src.has part then (src.pointer part).map (·.bytes) else dst.pointer part } := by
  unfold duplicate
  split_ifs with has
  · obtain ⟨block, found, room⟩ := able has
    obtain ⟨fresh, allocated⟩ := ne_none_iff_exists'.mp room
    have copy : store fresh 0 block.bytes = some block.bytes := by
      simp [store, heap.length allocated]
    simp [copyPart, found, block.size, block.check, block.load, allocated, copy]
  · rw [Function.update_eq_self]

/-- **A descriptor that was built is copied** if and only if the ACLs that are present are not NULL and the
heap has room for the copies; otherwise the copy goes through a NULL pointer. -/
theorem rtlCopySecurityDescriptor_iff (heap : Heap) (sd : SecurityDescriptor Valid) (calls : List Setter) :
    (∃ copy status, rtlCopySecurityDescriptor heap (built sd calls) dst = some (copy, status) ∧
      (status = .success → copy = (built sd calls).copied)) ↔ ∀ part, Copyable heap (built sd calls) part := by
  have absolute := absolute_built sd calls
  rw [rtlCopySecurityDescriptor, if_neg (by simp [absolute.control]), if_neg (not_not.mpr absolute.revision)]
  constructor
  · rintro ⟨copy, status, done, -⟩ part
    by_contra unable
    cases part <;> simp [duplicate_none _ unable] at done
  · intro able
    refine ⟨(built sd calls).copied, .success, ?_, fun _ => rfl⟩
    simp only [duplicate_eq _ (able _), bind_eq_bind, bind_some]
    congr
    funext part
    cases part <;> rfl

/-- The world SID. -/
def someOwner : Valid .owner :=
  ⟨[1, 1, 0, 0, 0, 0, 0, 1, 0, 0, 0, 0], [1, 1, 0, 0, 0, 0, 0, 1, 0, 0, 0, 0], by decide, by decide, rfl⟩

/-- An ACL without entries. -/
def emptyDacl : Valid .dacl := ⟨[2, 0, 8, 0, 0, 0, 0, 0], [2, 0, 8, 0, 0, 0, 0, 0], by decide, by decide, rfl⟩

/-- A heap that always has room. -/
def largeHeap : Heap :=
  ⟨fun _ size => some (List.replicate size 0), fun allocated =>
    Option.some.inj allocated ▸ List.length_replicate⟩

theorem rtlCopySecurityDescriptor_owner_dacl : ∃ calls, ∀ sd dst, ∃ copy,
    rtlCopySecurityDescriptor largeHeap (built sd calls) dst = some (copy, .success) ∧
    copy.pointer .owner = some someOwner.bytes ∧ copy.pointer .dacl = some emptyDacl.bytes ∧
    ∀ part, Copyable largeHeap (built sd calls) part := by
  refine ⟨[.owner (some someOwner) false, .dacl true (some emptyDacl) false], fun sd dst => ?_⟩
  refine ⟨_, rfl, rfl, rfl, (rtlCopySecurityDescriptor_iff dst largeHeap sd _).mp ⟨_, _, rfl, fun _ => ?_⟩⟩
  rw [SecurityDescriptor.copied]
  congr
  funext part
  cases part <;> rfl

/-- A DACL that is present and NULL is not copied. -/
theorem rtlCopySecurityDescriptor_null_dacl : ∃ calls, ∀ heap sd dst,
    rtlCopySecurityDescriptor heap (built sd calls) dst = none :=
  ⟨[.dacl true none false], fun _ _ _ => rfl⟩

end Copies

end FreeWindows.Rtl.Descriptor
