/-
**The default DACL of a token.**

The requests `set_token_default_dacl` and `get_token_default_dacl`. The first one copies as many bytes
as the client sent; the second one copies as many as the size field of the list says.
`acl_is_valid` does not compare the two, so the bytes come back exactly if the client set the field to
what it sent: `defaultDacl_returned_iff`.
-/

import FreeWindows.Token.Descriptor

namespace FreeWindows.Security

open Function List

/-- A buffer and what lies behind it. -/
def bufferMemory (bytes : List UInt8) (behind : Memory) : Memory := fun p =>
  if p < bytes.length then bytes.getD p 0 else behind (p - bytes.length)

def aclSize (mem : Memory) (acl : Nat) : Nat := mem.word (acl + 2)

/-- What a `memcpy` of `length` bytes gives. -/
def bytesAt (mem : Memory) (start length : Nat) : List UInt8 :=
  (List.range length).map fun i => mem (start + i)

inductive DaclError
  | invalidAcl
  | bufferTooSmall
  /-- The error of `get_handle_obj`. -/
  | handle (status : Nat)
deriving DecidableEq, Repr

/-- What is returned, and what is read of the stored copy for it. -/
structure DaclReply where
  aclLen : Nat
  data : List UInt8
  reads : List Read
deriving DecidableEq, Repr

section Requests

variable {ι : Type} [DecidableEq ι]

/-- The request `set_token_default_dacl`, over the `default_dacl` of all tokens. -/
def setTokenDefaultDacl (tokens : ι → Option (List UInt8)) (handle : Except DaclError ι)
    (acl : List UInt8) (behind : Memory) : Except DaclError (ι → Option (List UInt8)) :=
  if acl.length ≠ 0 ∧ ¬aclIsValid (bufferMemory acl behind) 0 acl.length then .error .invalidAcl
  else
    handle.bind fun token =>
      .ok (update tokens token (if acl.length ≠ 0 then some acl else none))

/-- The request `get_token_default_dacl`. -/
def getTokenDefaultDacl (tokens : ι → Option (List UInt8)) (handle : Except DaclError ι)
    (replyMaxSize : Nat) (heap : Memory) : Except DaclError DaclReply :=
  handle.bind fun token =>
    match tokens token with
    | none => .ok ⟨0, [], []⟩
    | some defaultDacl =>
      let mem := bufferMemory defaultDacl heap
      let aclLen := aclSize mem 0
      if aclLen ≤ replyMaxSize then .ok ⟨aclLen, bytesAt mem 0 aclLen, [⟨2, 2⟩, ⟨0, aclLen⟩]⟩
      else .error .bufferTooSmall

end Requests

/-! ### What comes back -/

theorem bytesAt_bufferMemory (bytes : List UInt8) (behind : Memory) :
    bytesAt (bufferMemory bytes behind) 0 bytes.length = bytes := by
  apply ext_getElem
  · simp [bytesAt]
  · intro i _ inside
    simp only [bytesAt, getElem_map, getElem_range, Nat.zero_add]
    rw [bufferMemory, if_pos inside, getD_eq_getElem _ _ inside]

theorem length_bytesAt (mem : Memory) (start length : Nat) : (bytesAt mem start length).length = length := by
  rw [bytesAt, length_map, length_range]

/-- The size field of a list that was sent. -/
def sizeField (acl : List UInt8) : Nat := (acl.getD 2 0).toNat + 256 * (acl.getD 3 0).toNat

theorem aclSize_bufferMemory {acl : List UInt8} (header : sizeofAcl ≤ acl.length) (behind : Memory) :
    aclSize (bufferMemory acl behind) 0 = sizeField acl := by
  unfold sizeofAcl at header
  rw [aclSize, Memory.word, bufferMemory, bufferMemory, if_pos (by omega), if_pos (by omega), sizeField]

theorem header_of_aclIsValid {mem : Memory} {acl size : Nat} (valid : aclIsValid mem acl size = true) :
    sizeofAcl ≤ size := by
  unfold aclIsValid at valid
  split at valid
  · cases valid
  · next header => exact Nat.le_of_not_lt header

section Returned

variable {ι : Type} [DecidableEq ι]

/-- Into every buffer that is large enough the request copies these bytes, and it reads nothing behind
the stored copy. -/
def Returned (tokens : ι → Option (List UInt8)) (token : ι) (acl : List UInt8) : Prop :=
  ∀ replyMaxSize heap, acl.length ≤ replyMaxSize →
    ∃ reply, getTokenDefaultDacl tokens (.ok token) replyMaxSize heap = .ok reply ∧
      reply.data = acl ∧ Inside acl.length reply.reads

variable {tokens after : ι → Option (List UInt8)} {token : ι} {acl : List UInt8} {behind : Memory}

theorem setTokenDefaultDacl_ok (accepted : setTokenDefaultDacl tokens (.ok token) acl behind = .ok after) :
    (acl = [] ∧ after token = none) ∨ (sizeofAcl ≤ acl.length ∧ after token = some acl) := by
  unfold setTokenDefaultDacl at accepted
  split at accepted
  · cases accepted
  next valid =>
  cases accepted
  by_cases empty : acl = []
  · left
    simp [empty]
  · right
    have some : acl.length ≠ 0 := mt length_eq_zero_iff.mp empty
    have checked : aclIsValid (bufferMemory acl behind) 0 acl.length = true := by
      simpa [some] using valid
    refine ⟨header_of_aclIsValid checked, ?_⟩
    rw [update_self, if_pos some]

/-- **The default DACL that is set is returned** exactly if nothing was sent, or the size field of the
list is the number of bytes that were sent. -/
theorem defaultDacl_returned_iff
    (accepted : setTokenDefaultDacl tokens (.ok token) acl behind = .ok after) :
    Returned after token acl ↔ acl = [] ∨ sizeField acl = acl.length := by
  rcases setTokenDefaultDacl_ok accepted with ⟨empty, stored⟩ | ⟨header, stored⟩
  · refine iff_of_true (fun replyMaxSize heap _ => ⟨⟨0, [], []⟩, ?_, empty.symm, ?_⟩) (.inl empty)
    · simp only [getTokenDefaultDacl, Except.bind, stored]
    · exact nofun
  · have some : acl ≠ [] := by
      rintro rfl
      exact absurd header (by decide)
    rw [or_iff_right some]
    constructor
    · intro returned
      obtain ⟨reply, run, same, -⟩ :=
        returned (max acl.length (sizeField acl)) behind (Nat.le_max_left _ _)
      simp only [getTokenDefaultDacl, Except.bind, stored, aclSize_bufferMemory header] at run
      rw [if_pos (Nat.le_max_right _ _)] at run
      cases run
      rw [← congrArg length same, length_bytesAt]
    · intro field replyMaxSize heap large
      refine ⟨⟨acl.length, acl, [⟨2, 2⟩, ⟨0, acl.length⟩]⟩, ?_, rfl, ?_⟩
      · simp only [getTokenDefaultDacl, Except.bind, stored, aclSize_bufferMemory header, field,
          if_pos large, bytesAt_bufferMemory]
      · unfold sizeofAcl at header
        simp only [Inside, forall_mem_cons, not_mem_nil, false_implies, implies_true, and_true]
        omega

end Returned

/-- An empty list, with its size in the field. -/
theorem defaultDacl_returned_iff_header :
    setTokenDefaultDacl (fun _ : Unit => none) (.ok ()) [2, 0, 8, 0, 0, 0, 0, 0] (fun _ => 0) =
        .ok (update (fun _ => none) () (some [2, 0, 8, 0, 0, 0, 0, 0])) ∧
      (Returned (update (fun _ : Unit => none) () (some [2, 0, 8, 0, 0, 0, 0, 0])) ()
          [2, 0, 8, 0, 0, 0, 0, 0] ↔
        ([2, 0, 8, 0, 0, 0, 0, 0] : List UInt8) = [] ∨ sizeField [2, 0, 8, 0, 0, 0, 0, 0] = 8) :=
  ⟨rfl, @defaultDacl_returned_iff Unit _ (fun _ => none) _ () _ (fun _ => 0) rfl⟩

/-- A list of eight bytes with 65535 in the field is accepted, and 65535 bytes are read of the copy. -/
theorem defaultDacl_read_behind :
    setTokenDefaultDacl (fun _ : Unit => none) (.ok ()) [2, 0, 255, 255, 0, 0, 0, 0] (fun _ => 0) =
        .ok (update (fun _ => none) () (some [2, 0, 255, 255, 0, 0, 0, 0])) ∧
      ∀ replyMaxSize heap, 65535 ≤ replyMaxSize →
        ∃ reply, getTokenDefaultDacl
            (update (fun _ : Unit => none) () (some [2, 0, 255, 255, 0, 0, 0, 0]))
            (.ok ()) replyMaxSize heap = .ok reply ∧
          reply.data.length = 65535 ∧ ¬Inside 8 reply.reads := by
  refine ⟨rfl, fun replyMaxSize heap large => ?_⟩
  have field := @aclSize_bufferMemory [2, 0, 255, 255, 0, 0, 0, 0] (by decide) heap
  have size : sizeField [2, 0, 255, 255, 0, 0, 0, 0] = 65535 := rfl
  simp only [getTokenDefaultDacl, Except.bind, update_self, field, size, if_pos large]
  refine ⟨_, rfl, ?_, ?_⟩
  · rw [length_bytesAt]
  · show ¬Inside 8 [⟨2, 2⟩, ⟨0, 65535⟩]
    decide

end FreeWindows.Security
