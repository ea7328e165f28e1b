/-
**Security descriptors in memory.**

`sd_is_valid` checks a descriptor that a client sent, before the server walks through it: the owner and
the group, and the entries of the two access control lists. Memory is a function of the address,
counted from the start of the buffer, so that what lies behind the buffer can be read as well.

The size of an entry may be smaller than its header. Then the room for its SID is negative, the
conversion to `data_size_t` makes it huge, and the SID is accepted wherever it ends. This is the only
way out of the buffer: `sdReads_inside_iff`.
-/

import Mathlib

namespace FreeWindows.Security

open List

/-- The bytes at all addresses, from the start of the buffer on. -/
abbrev Memory := Nat → UInt8

def Memory.word (mem : Memory) (p : Nat) : Nat := (mem p).toNat + 256 * (mem (p + 1)).toNat

def Memory.dword (mem : Memory) (p : Nat) : Nat := mem.word p + 65536 * mem.word (p + 2)

/-- The conversion to `data_size_t`. -/
def dataSize (n : Int) : Nat := (n % 2 ^ 32).toNat

/-! ### Validation -/

def sizeofSid : Nat := 8

def sizeofAce : Nat := 8

def sizeofAcl : Nat := 8

def sizeofSecurityDescriptor : Nat := 20

def maxAclLen : Nat := 65535

/-- The types of entries that are accepted. -/
def aceTypes : List UInt8 := [0, 1, 2, 3, 0x11]

section Layout

variable (mem : Memory)

def sidLen (sid : Nat) : Nat := sizeofSid + 4 * (mem (sid + 1)).toNat

def sidValidSize (sid size : Nat) : Bool := size ≥ sizeofSid ∧ size ≥ sidLen mem sid

def aceType (ace : Nat) : UInt8 := mem ace

def aceSize (ace : Nat) : Nat := mem.word (ace + 2)

def aceNext (ace : Nat) : Nat := ace + aceSize mem ace

def aceFirst (acl : Nat) : Nat := acl + sizeofAcl

def aclCount (acl : Nat) : Nat := mem.word (acl + 4)

/-- The loop of `acl_is_valid`. -/
def acesAreValid : (left ace size : Nat) → Bool
  | 0, _, _ => true
  | left + 1, ace, size =>
    if size < sizeofAce ∨ size < aceSize mem ace then false
    else if aceType mem ace ∉ aceTypes then false
    else if ¬sidValidSize mem (ace + sizeofAce) (dataSize (aceSize mem ace - sizeofAce)) then false
    else acesAreValid left (aceNext mem ace) (size - aceSize mem ace)

def aclIsValid (acl size : Nat) : Bool :=
  if size < sizeofAcl then false
  else acesAreValid mem (aclCount mem acl) (aceFirst acl) (min size maxAclLen - sizeofAcl)

def ownerLen : Nat := mem.dword 4

def groupLen : Nat := mem.dword 8

def saclLen : Nat := mem.dword 12

def daclLen : Nat := mem.dword 16

def sdGetOwner : Option Nat := if ownerLen mem ≠ 0 then some sizeofSecurityDescriptor else none

def sdGetGroup : Option Nat :=
  if groupLen mem ≠ 0 then some (sizeofSecurityDescriptor + ownerLen mem) else none

def sdGetSacl : Option Nat :=
  if saclLen mem ≠ 0 then some (sizeofSecurityDescriptor + ownerLen mem + groupLen mem) else none

def sdGetDacl : Option Nat :=
  if daclLen mem ≠ 0 then
    some (sizeofSecurityDescriptor + ownerLen mem + groupLen mem + saclLen mem)
  else none

/-- One member of a descriptor: its length is below a limit, it ends in the buffer, and it is valid
if it is there. -/
def memberIsValid (valid : Nat → Nat → Bool) (limit offset size len : Nat) (start : Option Nat) : Bool :=
  ¬(len ≥ limit ∨ offset + len > size) ∧ start.all (valid · len)

def sdIsValid (size : Nat) : Bool :=
  let offset := sizeofSecurityDescriptor
  let maxSidLen := sizeofSid + 4 * 255
  ¬size < offset ∧
    memberIsValid (sidValidSize mem) maxSidLen offset size (ownerLen mem) (sdGetOwner mem) ∧
    let offset := offset + ownerLen mem
    memberIsValid (sidValidSize mem) maxSidLen offset size (groupLen mem) (sdGetGroup mem) ∧
    let offset := offset + groupLen mem
    memberIsValid (aclIsValid mem) maxAclLen offset size (saclLen mem) (sdGetSacl mem) ∧
    let offset := offset + saclLen mem
    memberIsValid (aclIsValid mem) maxAclLen offset size (daclLen mem) (sdGetDacl mem)

/-! ### The walk -/

/-- Bytes that are read: where they start, and how many. -/
structure Read where
  start : Nat
  length : Nat
deriving DecidableEq, Repr

/-- The addresses of the entries that a walk comes to. -/
def aces : (left ace : Nat) → List Nat
  | 0, _ => []
  | left + 1, ace => ace :: aces left (aceNext mem ace)

def sidReads (sid : Nat) : List Read := [⟨sid, sidLen mem sid⟩]

/-- The header of an entry and the SID that follows it. -/
def aceReads (ace : Nat) : List Read := ⟨ace, sizeofAce⟩ :: sidReads mem (ace + sizeofAce)

def aclAces (acl : Nat) : List Nat := aces mem (aclCount mem acl) (aceFirst acl)

def aclReads (acl : Nat) : List Read := ⟨acl, sizeofAcl⟩ :: (aclAces mem acl).flatMap (aceReads mem)

/-- All entries of the two lists. -/
def sdAces : List Nat := (sdGetSacl mem).toList.flatMap (aclAces mem) ++
  (sdGetDacl mem).toList.flatMap (aclAces mem)

/-- What the server reads of a descriptor. -/
def sdReads : List Read :=
  ⟨0, sizeofSecurityDescriptor⟩ ::
    ((sdGetOwner mem).toList.flatMap (sidReads mem) ++ (sdGetGroup mem).toList.flatMap (sidReads mem) ++
      (sdGetSacl mem).toList.flatMap (aclReads mem) ++ (sdGetDacl mem).toList.flatMap (aclReads mem))

end Layout

/-- All reads are in a buffer of `size` bytes. -/
def Inside (size : Nat) (reads : List Read) : Prop := ∀ read ∈ reads, read.start + read.length ≤ size

instance (size : Nat) (reads : List Read) : Decidable (Inside size reads) :=
  inferInstanceAs (Decidable (∀ read ∈ reads, _))

/-- An entry that is smaller than its header has its SID in the buffer all the same. -/
def Contained (mem : Memory) (size : Nat) (entries : List Nat) : Prop :=
  ∀ ace ∈ entries, aceSize mem ace < sizeofAce →
    ace + sizeofAce + sidLen mem (ace + sizeofAce) ≤ size

/-! ### Reads of a valid descriptor -/

section Walk

variable {mem : Memory} {size : Nat}

theorem inside_append {front back : List Read} :
    Inside size (front ++ back) ↔ Inside size front ∧ Inside size back :=
  forall_mem_append

theorem inside_cons {read : Read} {reads : List Read} :
    Inside size (read :: reads) ↔ read.start + read.length ≤ size ∧ Inside size reads :=
  forall_mem_cons

theorem contained_append {front back : List Nat} :
    Contained mem size (front ++ back) ↔ Contained mem size front ∧ Contained mem size back :=
  forall_mem_append

variable {len ace room offset : Nat} {start : Option Nat}

theorem dataSize_of_le {header : Nat} (fits : header ≤ len) (small : len < 65536) :
    dataSize (len - header) = len - header := by
  unfold dataSize
  omega

theorem word_lt (mem : Memory) (p : Nat) : mem.word p < 65536 := by
  have := (mem p).toNat_lt
  have := (mem (p + 1)).toNat_lt
  unfold Memory.word
  omega

/-- **The entries of a list** that the loop has accepted. -/
theorem acesReads_inside_iff {left : Nat} (valid : acesAreValid mem left ace room = true)
    (inside : ace + room ≤ size) :
    Inside size ((aces mem left ace).flatMap (aceReads mem)) ↔
      Contained mem size (aces mem left ace) := by
  induction left generalizing ace room with
  | zero => simp [aces, Inside, Contained]
  | succ left ih =>
    unfold acesAreValid at valid
    split at valid
    · cases valid
    next fits =>
    split at valid
    · cases valid
    split at valid
    · cases valid
    next accepted =>
    have sid (whole : sizeofAce ≤ aceSize mem ace) :
        sizeofAce + sidLen mem (ace + sizeofAce) ≤ aceSize mem ace := by
      rw [not_not, sidValidSize, dataSize_of_le whole (word_lt mem _), decide_eq_true_eq] at accepted
      omega
    have next : aceNext mem ace + (room - aceSize mem ace) ≤ size := by
      unfold aceNext
      omega
    have here : Inside size (aceReads mem ace) ↔ Contained mem size [ace] := by
      simp only [Inside, aceReads, sidReads, Contained, forall_mem_cons, not_mem_nil, false_implies,
        implies_true, and_true]
      refine ⟨fun within _ => within.2, fun contained => ⟨by omega, ?_⟩⟩
      by_cases small : aceSize mem ace < sizeofAce
      · exact contained small
      · have := sid (by omega)
        omega
    rw [aces, flatMap_cons, inside_append, here,
      ih valid next, ← contained_append, singleton_append]

theorem aclReads_inside_iff {acl : Nat} (valid : aclIsValid mem acl len = true)
    (inside : acl + len ≤ size) :
    Inside size (aclReads mem acl) ↔ Contained mem size (aclAces mem acl) := by
  unfold aclIsValid at valid
  split at valid
  · cases valid
  next header =>
  have within : aceFirst acl + (min len maxAclLen - sizeofAcl) ≤ size := by
    unfold aceFirst
    omega
  have start : acl + sizeofAcl ≤ size := by omega
  rw [aclReads, inside_cons, aclAces, acesReads_inside_iff valid within]
  exact and_iff_right start

theorem inside_flatMap_iff {reads : Nat → List Read} {holds : Nat → Prop}
    (same : ∀ p, start = some p → (Inside size (reads p) ↔ holds p)) :
    Inside size (start.toList.flatMap reads) ↔ ∀ p, start = some p → holds p := by
  cases start with
  | none => simp [Inside]
  | some p => simpa using same p rfl

theorem contained_flatMap_iff :
    Contained mem size (start.toList.flatMap (aclAces mem)) ↔
      ∀ p, start = some p → Contained mem size (aclAces mem p) := by
  cases start with
  | none => simp [Contained]
  | some p => simp

theorem sidReads_flatMap_inside (valid : ∀ p, start = some p → sidValidSize mem p len = true)
    (at' : start = if len ≠ 0 then some offset else none) (inside : offset + len ≤ size) :
    Inside size (start.toList.flatMap (sidReads mem)) := by
  refine (inside_flatMap_iff fun p found => iff_true_intro ?_).mpr fun _ _ => trivial
  have place : p = offset := by
    split at at' <;> simp_all
  have fine := valid p found
  rw [sidValidSize, decide_eq_true_eq] at fine
  simp only [Inside, sidReads, forall_mem_cons, not_mem_nil, false_implies, implies_true, and_true]
  omega

theorem aclReads_flatMap_inside_iff (valid : ∀ p, start = some p → aclIsValid mem p len = true)
    (at' : start = if len ≠ 0 then some offset else none) (inside : offset + len ≤ size) :
    Inside size (start.toList.flatMap (aclReads mem)) ↔
      Contained mem size (start.toList.flatMap (aclAces mem)) := by
  rw [contained_flatMap_iff]
  refine inside_flatMap_iff fun p found => ?_
  have place : p = offset := by
    split at at' <;> simp_all
  exact aclReads_inside_iff (valid p found) (place ▸ inside)

end Walk

/-- **A valid descriptor is read inside its buffer** exactly if every entry that is smaller than its
header has a SID that ends in the buffer. -/
theorem sdReads_inside_iff (mem : Memory) (size : Nat) (valid : sdIsValid mem size = true) :
    Inside size (sdReads mem) ↔ Contained mem size (sdAces mem) := by
  simp only [sdIsValid, memberIsValid, decide_eq_true_eq, not_or, Nat.not_le, Nat.not_lt,
    Option.all_eq_true] at valid
  obtain ⟨-, ⟨-, owner⟩, ⟨-, group⟩, ⟨-, sacl⟩, ⟨-, inside⟩, dacl⟩ := valid
  have ownerInside := sidReads_flatMap_inside owner rfl (show _ ≤ size by omega)
  have groupInside := sidReads_flatMap_inside group rfl (show _ ≤ size by omega)
  have saclIff := aclReads_flatMap_inside_iff sacl rfl (show _ ≤ size by omega)
  have daclIff := aclReads_flatMap_inside_iff dacl rfl inside
  have header : 0 + sizeofSecurityDescriptor ≤ size := by omega
  rw [sdReads, inside_cons, inside_append, inside_append, inside_append, saclIff, daclIff, sdAces,
    contained_append]
  exact ⟨fun all => ⟨all.2.1.2, all.2.2⟩,
    fun both => ⟨header, ⟨⟨ownerInside, groupInside⟩, both.1⟩, both.2⟩⟩

/-- A descriptor with an owner and one entry of a discretionary list. -/
def ownerAndEntry : Memory := fun p =>
  ([4, 0, 0, 0, 12, 0, 0, 0, 0, 0, 0, 0, 0, 0, 0, 0, 28, 0, 0, 0,
    1, 1, 0, 0, 0, 0, 0, 5, 18, 0, 0, 0,
    2, 0, 28, 0, 1, 0, 0, 0,
    0, 0, 20, 0, 0, 0, 0, 16, 1, 1, 0, 0, 0, 0, 0, 5, 18, 0, 0, 0] : List UInt8).getD p 0

theorem sdReads_inside_iff_ownerAndEntry :
    sdIsValid ownerAndEntry 60 = true ∧
      (Inside 60 (sdReads ownerAndEntry) ↔ Contained ownerAndEntry 60 (sdAces ownerAndEntry)) :=
  ⟨by decide, sdReads_inside_iff ownerAndEntry 60 (by decide)⟩

/-- A descriptor with one entry of the size 0 at the end of the buffer. -/
def emptyEntry : Memory := fun p =>
  ([4, 0, 0, 0, 0, 0, 0, 0, 0, 0, 0, 0, 0, 0, 0, 0, 16, 0, 0, 0,
    2, 0, 16, 0, 1, 0, 0, 0,
    0, 0, 0, 0, 0, 0, 0, 16] : List UInt8).getD p 0

/-- The buffer of 36 bytes is accepted, and the SID of its entry starts at its end. -/
theorem sdReads_emptyEntry_fails :
    sdIsValid emptyEntry 36 = true ∧ ⟨36, 8⟩ ∈ sdReads emptyEntry ∧ ¬Inside 36 (sdReads emptyEntry) := by
  decide

end FreeWindows.Security
