/-
**The request `create_token`.**

The request brings an object attributes structure, the SID of the user, the attributes and the SIDs of
the groups, the privileges, and an access control list, one behind the other. The handler finds them
by the counts in the request and by the lengths that the parts have themselves, and `create_token`
copies them.

A read that is not in the payload ends the run of the model with `outside`.
`createTokenRequest_inside_iff` says for which requests that does not happen.
-/

import FreeWindows.Token.DefaultDacl

namespace FreeWindows.Security

open List Option Nat Except

inductive Stop
  /-- A read of a byte that is not in the payload. -/
  | outside
  | invalidParameter
deriving DecidableEq, Repr

structure CreateTokenRequest where
  payload : List UInt8
  /-- Its length is a `data_size_t`. -/
  small : payload.length < 2 ^ 32
  groupCount : Int32
  primaryGroup : Int32
  privCount : Int32

/-- What `create_token` copies from the request. -/
structure NewToken where
  user : List UInt8
  /-- The attributes and the SIDs. -/
  groups : List (Nat × List UInt8)
  /-- The LUIDs, and whether the privilege is enabled. -/
  privileges : List (List UInt8 × Bool)
  /-- The default DACL, unless it is the one that `create_default_dacl` makes. -/
  defaultDacl : Option (List UInt8)
  primaryGroup : Nat
deriving DecidableEq, Repr

def sizeofObjectAttributes : Nat := 16

def sizeofLuidAttr : Nat := 12

def sePrivilegeEnabled : Nat := 2

/-! ### The handler -/

section Handler

variable (mem : Memory) (size : Nat)

/-- The bytes from `start` on are read. -/
def need (start length : Nat) : Except Stop Unit :=
  if start + length ≤ size then .ok () else .error .outside

/-- `sid_valid_size`. -/
def readSidValidSize (sid room : Nat) : Except Stop Bool :=
  if room < sizeofSid then .ok false
  else (need size (sid + 1) 1).map fun _ => decide (sidLen mem sid ≤ room)

/-- The length of the object attributes, a `data_size_t`. -/
def objattrLen : Nat :=
  (sizeofObjectAttributes + mem.dword 8 / 2 * 2 + mem.dword 12 / 2 * 2 + 3) / 4 * 4 % 2 ^ 32

def getReqDataAfterObjattr : Except Stop (Option Nat) := do
  need size 8 8
  if objattrLen mem ≥ size then .ok none else .ok (some (objattrLen mem))

/-- The loop over the groups: the attributes and the SID of each of them, and the length of all. -/
def readGroups (attrs dataSize : Nat) : (left i sid groupsSize : Nat) →
    Except Stop (List (Nat × Nat) × Nat)
  | 0, _, _, groupsSize => .ok ([], groupsSize)
  | left + 1, i, sid, groupsSize => do
    need size (attrs + 4 * i) 4
    if ← readSidValidSize mem size sid (dataSize - groupsSize) then
      let (groups, groupsSize) ←
        readGroups attrs dataSize left (i + 1) (sid + sidLen mem sid) (groupsSize + sidLen mem sid)
      .ok ((mem.dword (attrs + 4 * i), sid) :: groups, groupsSize)
    else .error .invalidParameter

/-- The loop of `acl_is_valid`. -/
def readAcesAreValid : (left ace room : Nat) → Except Stop Bool
  | 0, _, _ => .ok true
  | left + 1, ace, room =>
    if room < sizeofAce then .ok false
    else do
      need size ace sizeofAce
      if room < aceSize mem ace then .ok false
      else if aceType mem ace ∉ aceTypes then .ok false
      else if ← readSidValidSize mem size (ace + sizeofAce) (dataSize (aceSize mem ace - sizeofAce)) then
        readAcesAreValid left (aceNext mem ace) (room - aceSize mem ace)
      else .ok false

/-- `acl_is_valid`. -/
def readAclIsValid (acl room : Nat) : Except Stop Bool :=
  if room < sizeofAcl then .ok false
  else do
    need size acl sizeofAcl
    readAcesAreValid mem size (aclCount mem acl) (aceFirst acl) (min room maxAclLen - sizeofAcl)

def copyAt (start length : Nat) : Except Stop (List UInt8) :=
  (need size start length).map fun _ => bytesAt mem start length

def copySid (sid : Nat) : Except Stop (List UInt8) := do
  need size (sid + 1) 1
  copyAt mem size sid (sidLen mem sid)

/-- The privileges, as `privilege_add` gets them. -/
def copyPrivileges (privs : Nat) : (left i : Nat) → Except Stop (List (List UInt8 × Bool))
  | 0, _ => .ok []
  | left + 1, i => do
    let luid ← copyAt mem size (privs + sizeofLuidAttr * i) 8
    need size (privs + sizeofLuidAttr * i + 8) 4
    let attrs := mem.dword (privs + sizeofLuidAttr * i + 8)
    let privileges ← copyPrivileges privs left (i + 1)
    .ok ((luid, decide (attrs &&& sePrivilegeEnabled ≠ 0)) :: privileges)

def createToken (user : Nat) (groups : List (Nat × Nat)) (privs privCount : Nat)
    (defaultDacl : Option Nat) (primaryGroup : Nat) : Except Stop NewToken := do
  let user ← copySid mem size user
  let groups ← groups.mapM fun group => (copySid mem size group.2).map (Prod.mk group.1 ·)
  let privileges ← copyPrivileges mem size privs privCount 0
  let defaultDacl ← match defaultDacl with
    | none => .ok none
    | some dacl => do
      need size (dacl + 2) 2
      (copyAt mem size dacl (aclSize mem dacl)).map some
  .ok ⟨user, groups, privileges, defaultDacl, primaryGroup⟩

end Handler

namespace CreateTokenRequest

variable (r : CreateTokenRequest)

def mem : Memory := fun p => r.payload.getD p 0

def size : Nat := r.payload.length

/-- `req->group_count * sizeof(attrs[0])`, as a `data_size_t`. -/
def groupsSize : Nat := (r.groupCount.toInt * 4 % 2 ^ 32).toNat

/-- `req->priv_count * sizeof(privs[0])`, as a `size_t`. -/
def privsSize : Nat := (r.privCount.toInt * sizeofLuidAttr % 2 ^ 64).toNat

/-- The user, and how many bytes follow. -/
def findUser : Except Stop (Nat × Nat) := do
  match ← getReqDataAfterObjattr r.mem r.size with
  | none => .error .invalidParameter
  | some user =>
    if ← readSidValidSize r.mem r.size user (r.size - user) then
      .ok (user, r.size - user - sidLen r.mem user)
    else .error .invalidParameter

/-- The groups, and the length of their part. -/
def findGroups (attrs dataSize : Nat) : Except Stop (List (Nat × Nat) × Nat) :=
  if dataSize < r.groupsSize then .error .invalidParameter
  else if r.primaryGroup.toInt < 0 ∨ r.primaryGroup.toInt ≥ r.groupCount.toInt then
    .error .invalidParameter
  else
    readGroups r.mem r.size attrs dataSize r.groupCount.toInt.toNat 0
      (attrs + 4 * r.groupCount.toInt.toNat) r.groupsSize

/-- The list behind the privileges, if there is anything. -/
def findDacl (privs dataSize : Nat) : Except Stop (Option Nat) :=
  if dataSize < r.privsSize then .error .invalidParameter
  else if dataSize - r.privsSize = 0 then .ok none
  else do
    if ← readAclIsValid r.mem r.size (privs + r.privsSize) (dataSize - r.privsSize) then
      .ok (some (privs + r.privsSize))
    else .error .invalidParameter

end CreateTokenRequest

/-- The handler of `create_token`. -/
def createTokenRequest (r : CreateTokenRequest) : Except Stop NewToken := do
  let (user, dataSize) ← r.findUser
  let attrs := user + sidLen r.mem user
  let (groups, groupsSize) ← r.findGroups attrs dataSize
  let dacl ← r.findDacl (attrs + groupsSize) (dataSize - groupsSize)
  let token ← createToken r.mem r.size user groups (attrs + groupsSize) r.privCount.toInt.toNat dacl
    r.primaryGroup.toInt.toNat
  -- the attributes of the handle
  need r.size 4 4
  .ok token

/-! ### Reads in the payload -/

section Reads

variable {mem : Memory} {size start length sid room privs left i ace privCount user dacl sids : Nat}
  {groups : List (Nat × Nat)}

theorem need_ok (inside : start + length ≤ size) : need size start length = .ok () :=
  if_pos inside

theorem need_outside (behind : size < start + length) : need size start length = .error .outside :=
  if_neg (Nat.not_le.mpr behind)

theorem readSidValidSize_eq (inside : room < sizeofSid ∨ sid + 2 ≤ size) :
    readSidValidSize mem size sid room = .ok (sidValidSize mem sid room) := by
  unfold readSidValidSize sidValidSize
  split
  · next short => simp [Nat.not_le.mpr short]
  · next long =>
    rw [need_ok (by omega), Except.map]
    simp [Nat.not_lt.mp long]

theorem copyAt_ok (inside : start + length ≤ size) :
    copyAt mem size start length = .ok (bytesAt mem start length) := by
  rw [copyAt, need_ok inside, Except.map]

/-- A SID that ends in the payload. -/
def SidInside (mem : Memory) (size sid : Nat) : Prop := sid + sidLen mem sid ≤ size

theorem copySid_ok (inside : SidInside mem size sid) :
    copySid mem size sid = .ok (bytesAt mem sid (sidLen mem sid)) := by
  unfold SidInside at inside
  have header : sizeofSid ≤ sidLen mem sid := le_add_right _ _
  unfold sizeofSid at header
  simp only [copySid, need_ok (by omega : sid + 1 + 1 ≤ size), copyAt_ok inside, bind, Except.bind]

/-! ### The groups -/

/-- The length of so many SIDs in a row, if they end in the room. -/
def sidsSize (mem : Memory) : (left sid room : Nat) → Option Nat
  | 0, _, _ => some 0
  | left + 1, sid, room =>
    if sidValidSize mem sid room then
      (sidsSize mem left (sid + sidLen mem sid) (room - sidLen mem sid)).map (sidLen mem sid + ·)
    else none

theorem sidsSize_le (found : sidsSize mem left sid room = some sids) : sids ≤ room := by
  induction left generalizing sid room sids with
  | zero =>
    cases found
    exact zero_le _
  | succ left ih =>
    rw [sidsSize] at found
    split at found
    · next valid =>
      rw [sidValidSize, decide_eq_true_eq] at valid
      obtain ⟨rest, others, rfl⟩ := map_eq_some_iff.mp found
      have := ih others
      omega
    · cases found

/-- **The loop over the groups**, when their attributes are in the payload: it fails for SIDs that do
not fit, and finds SIDs that do. -/
theorem readGroups_eq {attrs dataSize groupsSize : Nat} (inside : attrs + 4 * (i + left) ≤ size)
    (fits : groupsSize ≤ dataSize) (room : sid + (dataSize - groupsSize) ≤ size) :
    match sidsSize mem left sid (dataSize - groupsSize) with
    | none => readGroups mem size attrs dataSize left i sid groupsSize = .error .invalidParameter
    | some sids => ∃ groups,
        readGroups mem size attrs dataSize left i sid groupsSize = .ok (groups, groupsSize + sids) ∧
          ∀ group ∈ groups, SidInside mem size group.2 := by
  induction left generalizing i sid groupsSize with
  | zero => exact ⟨[], rfl, nofun⟩
  | succ left ih =>
    have attributes := @need_ok size (attrs + 4 * i) 4 (by omega)
    have header : dataSize - groupsSize < sizeofSid ∨ sid + 2 ≤ size := by
      unfold sizeofSid
      omega
    have check := @readSidValidSize_eq mem size sid (dataSize - groupsSize) header
    by_cases valid : sidValidSize mem sid (dataSize - groupsSize) = true
    · have whole : sidLen mem sid ≤ dataSize - groupsSize := by
        rw [sidValidSize, decide_eq_true_eq] at valid
        exact valid.2
      have others := @ih (sid + sidLen mem sid) (i + 1) (groupsSize + sidLen mem sid) (by omega)
        (by omega) (by omega)
      have rest : dataSize - (groupsSize + sidLen mem sid) = dataSize - groupsSize - sidLen mem sid := by
        omega
      rw [rest] at others
      rw [sidsSize]
      simp only [readGroups, attributes, check, valid, bind, Except.bind, if_true]
      cases found : sidsSize mem left (sid + sidLen mem sid) (dataSize - groupsSize - sidLen mem sid) with
      | none =>
        rw [found] at others
        simp only [map_none, others]
      | some sids =>
        rw [found] at others
        obtain ⟨groups, run, inside⟩ := others
        simp only [map_some, run]
        refine ⟨_, by rw [Nat.add_assoc], forall_mem_cons.mpr ⟨?_, inside⟩⟩
        unfold SidInside
        dsimp only
        omega
    · rw [sidsSize]
      simp only [readGroups, attributes, check, valid, bind, Except.bind]
      rfl

theorem copyGroups_ok (inside : ∀ group ∈ groups, SidInside mem size group.2) :
    ∃ copies, groups.mapM (fun group => (copySid mem size group.2).map (Prod.mk group.1 ·)) =
      .ok copies := by
  induction groups with
  | nil => exact ⟨[], rfl⟩
  | cons group groups ih =>
    obtain ⟨here, others⟩ := forall_mem_cons.mp inside
    obtain ⟨copies, run⟩ := ih others
    refine ⟨(group.1, bytesAt mem group.2 (sidLen mem group.2)) :: copies, ?_⟩
    rw [mapM_cons, copySid_ok here, run]
    rfl

theorem copyPrivileges_ok (inside : privs + sizeofLuidAttr * (i + left) ≤ size) :
    ∃ privileges, copyPrivileges mem size privs left i = .ok privileges := by
  induction left generalizing i with
  | zero => exact ⟨[], rfl⟩
  | succ left ih =>
    unfold sizeofLuidAttr at inside ih
    obtain ⟨privileges, run⟩ := @ih (i + 1) (by omega)
    have luid := @copyAt_ok mem size (privs + 12 * i) 8 (by omega)
    have attrs := @need_ok size (privs + 12 * i + 8) 4 (by omega)
    simp only [copyPrivileges, sizeofLuidAttr, luid, attrs, run, bind, bind]
    exact ⟨_, rfl⟩

/-! ### The access control list -/

/-- The entries for which `acl_is_valid` comes to the check of the SID. -/
def visited (mem : Memory) : (left ace room : Nat) → List Nat
  | 0, _, _ => []
  | left + 1, ace, room =>
    if room < sizeofAce ∨ room < aceSize mem ace then []
    else if aceType mem ace ∉ aceTypes then []
    else
      ace :: if sidValidSize mem (ace + sizeofAce) (dataSize (aceSize mem ace - sizeofAce)) then
          visited mem left (aceNext mem ace) (room - aceSize mem ace)
        else []

/-- An entry that is smaller than its header has the count of its SID in the payload all the same. -/
def CountsInside (mem : Memory) (size : Nat) (entries : List Nat) : Prop :=
  ∀ ace ∈ entries, aceSize mem ace < sizeofAce → ace + sizeofAce + 2 ≤ size

instance (entries : List Nat) : Decidable (CountsInside mem size entries) :=
  inferInstanceAs (Decidable (∀ ace ∈ entries, _))

theorem readAceSid_eq (inside : ace + room ≤ size) (entry : aceSize mem ace ≤ room) :
    readSidValidSize mem size (ace + sizeofAce) (dataSize (aceSize mem ace - sizeofAce)) =
      if CountsInside mem size [ace] then
        .ok (sidValidSize mem (ace + sizeofAce) (dataSize (aceSize mem ace - sizeofAce)))
      else .error .outside := by
  have small := word_lt mem (ace + 2)
  by_cases counts : CountsInside mem size [ace]
  · rw [if_pos counts]
    apply readSidValidSize_eq
    by_cases short : aceSize mem ace < sizeofAce
    · exact .inr (counts ace (mem_singleton_self ace) short)
    · rw [dataSize_of_le (Nat.le_of_not_lt short) small]
      unfold sizeofSid sizeofAce at *
      omega
  · -- the room for the SID is negative, and is taken for a huge one
    rw [if_neg counts]
    simp only [CountsInside, forall_mem_singleton, Classical.not_imp, Nat.not_le] at counts
    have huge : ¬dataSize (aceSize mem ace - sizeofAce) < sizeofSid := by
      unfold dataSize sizeofSid sizeofAce at *
      omega
    rw [readSidValidSize, if_neg huge, need_outside (by omega)]
    rfl

theorem countsInside_cons {entries : List Nat} :
    CountsInside mem size (ace :: entries) ↔ CountsInside mem size [ace] ∧ CountsInside mem size entries := by
  simp only [CountsInside, forall_mem_cons, not_mem_nil, false_implies, implies_true, and_true]

theorem countsInside_nil : CountsInside mem size [] := nofun

/-- **The loop of `acl_is_valid` stays in the payload** exactly if the counts do. -/
theorem readAcesAreValid_eq (inside : ace + room ≤ size) :
    readAcesAreValid mem size left ace room =
      if CountsInside mem size (visited mem left ace room) then .ok (acesAreValid mem left ace room)
      else .error .outside := by
  induction left generalizing ace room with
  | zero => rfl
  | succ left ih =>
    rw [readAcesAreValid, visited, acesAreValid]
    by_cases header : room < sizeofAce
    · have short : room < sizeofAce ∨ room < aceSize mem ace := .inl header
      rw [if_pos header, if_pos short, if_pos short, if_pos countsInside_nil]
    have start := @need_ok size ace sizeofAce (by omega)
    simp only [if_neg header, start, bind, Except.bind]
    by_cases entry : room < aceSize mem ace
    · have short : room < sizeofAce ∨ room < aceSize mem ace := .inr entry
      rw [if_pos entry, if_pos short, if_pos short, if_pos countsInside_nil]
    have whole : ¬(room < sizeofAce ∨ room < aceSize mem ace) := by omega
    rw [if_neg entry, if_neg whole, if_neg whole]
    by_cases type : aceType mem ace ∉ aceTypes
    · rw [if_pos type, if_pos type, if_pos type, if_pos countsInside_nil]
    rw [if_neg type, if_neg type, if_neg type, readAceSid_eq inside (Nat.le_of_not_lt entry)]
    by_cases counts : CountsInside mem size [ace]
    · by_cases valid : sidValidSize mem (ace + sizeofAce) (dataSize (aceSize mem ace - sizeofAce)) = true
      · have next : aceNext mem ace + (room - aceSize mem ace) ≤ size := by
          unfold aceNext
          omega
        simp only [if_pos counts, valid, if_true, not_true, if_false, ih next]
        exact if_congr (countsInside_cons.trans (and_iff_right counts)).symm rfl rfl
      · simp only [if_pos counts, valid, Bool.false_eq_true, if_false, not_false_eq_true, if_true]
    · rw [if_neg counts, if_neg fun all => counts (countsInside_cons.mp all).1]

/-- The entries of a list that `acl_is_valid` comes to. -/
def visitedAces (mem : Memory) (acl room : Nat) : List Nat :=
  visited mem (aclCount mem acl) (aceFirst acl) (min room maxAclLen - sizeofAcl)

theorem readAclIsValid_eq {acl : Nat} (inside : acl + room ≤ size) :
    readAclIsValid mem size acl room =
      if CountsInside mem size (visitedAces mem acl room) then .ok (aclIsValid mem acl room)
      else .error .outside := by
  unfold readAclIsValid aclIsValid visitedAces
  by_cases header : room < sizeofAcl
  · have none : visited mem (aclCount mem acl) (aceFirst acl) (min room maxAclLen - sizeofAcl) = [] := by
      have zero : min room maxAclLen - sizeofAcl = 0 := by
        omega
      rw [zero]
      cases aclCount mem acl with
      | zero => rfl
      | succ left => exact if_pos (.inl (by decide))
    rw [if_pos header, if_pos header, none, if_pos countsInside_nil]
  · have start := @need_ok size acl sizeofAcl (by omega)
    simp only [if_neg header, start, bind, bind]
    apply readAcesAreValid_eq
    unfold aceFirst
    omega

/-! ### The new token -/

/-- What `create_token` copies is in the payload, except for the list. -/
structure Copied (mem : Memory) (size user : Nat) (groups : List (Nat × Nat)) (privs privCount : Nat) :
    Prop where
  user : SidInside mem size user
  groups : ∀ group ∈ groups, SidInside mem size group.2
  privs : privs + sizeofLuidAttr * privCount ≤ size

variable (copied : Copied mem size user groups privs privCount) (primaryGroup : Nat)
include copied primaryGroup

/-- The list, if there is one, is copied with the size that it states. -/
theorem Copied.createToken_inside_iff {dacl : Option Nat}
    (header : ∀ list ∈ dacl, list + sizeofAcl ≤ size) :
    createToken mem size user groups privs privCount dacl primaryGroup ≠ .error .outside ↔
      ∀ list ∈ dacl, list + aclSize mem list ≤ size := by
  obtain ⟨copies, groupsRun⟩ := copyGroups_ok copied.groups
  obtain ⟨privileges, privsRun⟩ := @copyPrivileges_ok mem size privs privCount 0
    (by rw [Nat.zero_add]; exact copied.privs)
  simp only [createToken, copySid_ok copied.user, groupsRun, privsRun, bind, bind]
  cases dacl with
  | none => exact iff_of_true (by rintro ⟨⟩) (by rintro _ ⟨⟩)
  | some list =>
    have whole := header list rfl
    unfold sizeofAcl at whole
    simp only [@need_ok size (list + 2) 2 (by omega), mem_some_iff, forall_eq']
    by_cases inside : list + aclSize mem list ≤ size
    · rw [copyAt_ok inside]
      exact iff_of_true (by rintro ⟨⟩) inside
    · rw [copyAt, need_outside (by omega)]
      exact iff_of_false (fun differ => differ rfl) inside

end Reads

/-! ### The parts of the request -/

namespace CreateTokenRequest

variable (r : CreateTokenRequest)

/-- The user is in the payload. -/
def HasUser : Prop :=
  objattrLen r.mem < r.size ∧ sidValidSize r.mem (objattrLen r.mem) (r.size - objattrLen r.mem) = true

/-- Where the attributes of the groups start. -/
def attrs : Nat := objattrLen r.mem + sidLen r.mem (objattrLen r.mem)

/-- The number of bytes from there on. -/
def room : Nat := r.size - objattrLen r.mem - sidLen r.mem (objattrLen r.mem)

def groups : Nat := r.groupCount.toInt.toNat

def privs : Nat := r.privCount.toInt.toNat

/-- The primary group is one of the groups. -/
def PrimaryInRange : Prop :=
  0 ≤ r.primaryGroup.toInt ∧ r.primaryGroup.toInt < r.groupCount.toInt

/-- **The counts fit the payload**: it has a user, so many attributes and SIDs of groups, the SIDs with
the given length, and so many privileges. -/
structure Fits (sids : Nat) : Prop where
  user : r.HasUser
  primary : r.PrimaryInRange
  found : sidsSize r.mem r.groups (r.attrs + 4 * r.groups) (r.room - 4 * r.groups) = some sids
  positive : 0 ≤ r.privCount.toInt
  within : 4 * r.groups + sids + sizeofLuidAttr * r.privs ≤ r.room

/-- Where the access control list starts. -/
def dacl (sids : Nat) : Nat := r.attrs + 4 * r.groups + sids + sizeofLuidAttr * r.privs

/-- A list in the payload is read in the payload. -/
def DaclInside (dacl : Nat) : Prop :=
  CountsInside r.mem r.size (visitedAces r.mem dacl (r.size - dacl)) ∧
    (aclIsValid r.mem dacl (r.size - dacl) = true → dacl + aclSize r.mem dacl ≤ r.size)

/-- The condition on the request. -/
structure Sound : Prop where
  /-- The payload holds the object attributes. -/
  objattr : sizeofObjectAttributes ≤ r.size
  /-- The length of the attributes of the groups is below 2^32, or the first SID does not fit what is
  left of the payload. -/
  groups : r.HasUser → r.PrimaryInRange → r.groupsSize ≤ r.room →
    r.groups < 2 ^ 30 ∨ (4 ≤ r.room ∧ r.room < r.groupsSize + sizeofSid)
  dacl : ∀ sids, r.Fits sids → r.dacl sids < r.size → r.DaclInside (r.dacl sids)

variable {r} {start dataSize dacl sids : Nat}

theorem findUser_eq (objattr : sizeofObjectAttributes ≤ r.size) :
    (r.HasUser → r.findUser = .ok (objattrLen r.mem, r.room)) ∧
      (¬r.HasUser → r.findUser = .error .invalidParameter) := by
  have read := @need_ok r.size 8 8 objattr
  simp only [findUser, getReqDataAfterObjattr, read, bind, Except.bind, ge_iff_le, HasUser]
  by_cases inside : objattrLen r.mem < r.size
  · have check := @readSidValidSize_eq r.mem r.size (objattrLen r.mem) (r.size - objattrLen r.mem)
      (by unfold sizeofSid; omega)
    simp only [if_neg (Nat.not_le.mpr inside), check, inside, true_and]
    exact ⟨fun valid => by rw [if_pos valid]; rfl, fun invalid => if_neg invalid⟩
  · simp only [if_pos (Nat.le_of_not_lt inside), inside, false_and, false_implies, true_and,
      implies_true]

/-- The parts behind the user end with the payload. -/
theorem HasUser.attrs_add_room (user : r.HasUser) : r.attrs + r.room = r.size := by
  obtain ⟨inside, valid⟩ := user
  rw [sidValidSize, decide_eq_true_eq] at valid
  unfold attrs room
  omega

theorem HasUser.sidInside (user : r.HasUser) : SidInside r.mem r.size (objattrLen r.mem) := by
  have := user.attrs_add_room
  unfold SidInside
  unfold attrs at this
  omega

/-! ### The counts of the groups -/

theorem findGroups_invalid (other : ¬(r.PrimaryInRange ∧ r.groupsSize ≤ r.room)) :
    r.findGroups r.attrs r.room = .error .invalidParameter := by
  unfold findGroups
  split
  · rfl
  · split
    · rfl
    · next fits range =>
      refine absurd ⟨?_, Nat.le_of_not_lt fits⟩ other
      unfold PrimaryInRange
      omega

theorem findGroups_eq (range : r.PrimaryInRange) (fits : r.groupsSize ≤ r.room) :
    r.findGroups r.attrs r.room =
      readGroups r.mem r.size r.attrs r.room r.groups 0 (r.attrs + 4 * r.groups) r.groupsSize := by
  unfold PrimaryInRange at range
  rw [findGroups, if_neg (Nat.not_lt.mpr fits), if_neg (by omega)]
  rfl

/-- With fewer than 2^30 groups the length is computed without a loss. -/
theorem groupsSize_near (range : r.PrimaryInRange) (few : r.groups < 2 ^ 30) :
    r.groupsSize = 4 * r.groups := by
  unfold PrimaryInRange at range
  unfold groups at few ⊢
  unfold groupsSize
  omega

/-- With more groups the first attribute is read, and the first SID is searched behind the payload. -/
theorem readGroups_far (user : r.HasUser) (many : 2 ^ 30 ≤ r.groups) :
    readGroups r.mem r.size r.attrs r.room r.groups 0 (r.attrs + 4 * r.groups) r.groupsSize =
      if 4 ≤ r.room ∧ r.room < r.groupsSize + sizeofSid then .error .invalidParameter
      else .error .outside := by
  have whole := user.attrs_add_room
  have small : r.size < 2 ^ 32 := r.small
  obtain ⟨left, isLeft⟩ : ∃ left, r.groups = left + 1 := ⟨r.groups - 1, by omega⟩
  by_cases attributes : 4 ≤ r.room
  · have first := @need_ok r.size (r.attrs + 4 * 0) 4 (by omega)
    rw [isLeft, readGroups, ← isLeft]
    simp only [first, bind, Except.bind]
    by_cases short : r.room - r.groupsSize < sizeofSid
    · have check := @readSidValidSize_eq r.mem r.size (r.attrs + 4 * r.groups) _ (.inl short)
      have invalid : sidValidSize r.mem (r.attrs + 4 * r.groups) (r.room - r.groupsSize) = false := by
        rw [sidValidSize, decide_eq_false_iff_not]
        omega
      have both : 4 ≤ r.room ∧ r.room < r.groupsSize + sizeofSid := by
        omega
      simp only [check, invalid, Bool.false_eq_true, if_false, if_pos both]
    · have far := @need_outside r.size (r.attrs + 4 * r.groups + 1) 1 (by omega)
      have long : ¬(4 ≤ r.room ∧ r.room < r.groupsSize + sizeofSid) := by
        unfold sizeofSid at *
        omega
      rw [if_neg long, readSidValidSize, if_neg short, far]
      rfl
  · have first := @need_outside r.size (r.attrs + 4 * 0) 4 (by omega)
    rw [if_neg (fun both => attributes both.1), isLeft, readGroups]
    simp only [first, bind, Except.bind]

/-! ### The privileges and the list -/

theorem privsSize_eq (positive : 0 ≤ r.privCount.toInt) : r.privsSize = sizeofLuidAttr * r.privs := by
  have below : r.privCount.toInt < 2 ^ 31 := r.privCount.toInt_lt
  unfold privsSize privs sizeofLuidAttr
  rw [Int.emod_eq_of_lt (by omega) (by omega)]
  omega

/-! ### The outcome of a request -/

theorem Fits.few (fits : r.Fits sids) : r.groups < 2 ^ 30 := by
  have := fits.within
  have := fits.user.attrs_add_room
  have small : r.size < 2 ^ 32 := r.small
  omega

theorem Fits.unique {sids' : Nat} (fits : r.Fits sids) (fits' : r.Fits sids') : sids = sids' :=
  some.inj (fits.found.symm.trans fits'.found)

variable (objattr : sizeofObjectAttributes ≤ r.size)

include objattr

theorem run_groups (user : r.HasUser) : createTokenRequest r =
    (r.findGroups r.attrs r.room).bind fun found =>
      (r.findDacl (r.attrs + found.2) (r.room - found.2)).bind fun dacl =>
        createToken r.mem r.size (objattrLen r.mem) found.1 (r.attrs + found.2) r.privs dacl
          r.primaryGroup.toInt.toNat := by
  have attributes := @need_ok r.size 4 4 (by unfold sizeofObjectAttributes at objattr; omega)
  have last : ∀ x : Except Stop NewToken, (x.bind fun token => .ok token) = x := fun x => by
    cases x <;> rfl
  simp only [createTokenRequest, (findUser_eq objattr).1 user, attributes]
  exact congrArg (bind _) (funext fun _ => congrArg (bind _) (funext fun _ => last _))

theorem run_far (user : r.HasUser) (range : r.PrimaryInRange) (fits : r.groupsSize ≤ r.room)
    (many : 2 ^ 30 ≤ r.groups) :
    createTokenRequest r =
      if 4 ≤ r.room ∧ r.room < r.groupsSize + sizeofSid then .error .invalidParameter
      else .error .outside := by
  rw [run_groups objattr user, findGroups_eq range fits, readGroups_far user many]
  split <;> rfl

theorem run_not_fits (user : r.HasUser)
    (few : r.PrimaryInRange ∧ r.groupsSize ≤ r.room → r.groups < 2 ^ 30) (other : ¬∃ sids, r.Fits sids) :
    createTokenRequest r = .error .invalidParameter := by
  by_cases counts : r.PrimaryInRange ∧ r.groupsSize ≤ r.room
  · have ⟨range, fits⟩ := counts
    rw [run_groups objattr user, findGroups_eq range fits]
    rw [groupsSize_near range (few counts)] at fits ⊢
    have whole := user.attrs_add_room
    have found := @readGroups_eq r.mem r.size (r.attrs + 4 * r.groups) r.groups 0 r.attrs r.room
      _ (by omega) fits (by omega)
    cases all : sidsSize r.mem r.groups (r.attrs + 4 * r.groups) (r.room - 4 * r.groups) with
    | none =>
      rw [all] at found
      rw [found]
      rfl
    | some sids =>
      rw [all] at found
      obtain ⟨groups, found, -⟩ := found
      have privileges : r.room - (4 * r.groups + sids) < r.privsSize := by
        by_contra enough
        have small : r.size < 2 ^ 32 := r.small
        have positive : 0 ≤ r.privCount.toInt := by
          by_contra negative
          have above : -2 ^ 31 ≤ r.privCount.toInt := r.privCount.le_toInt
          have large : 2 ^ 32 ≤ r.privsSize := by
            unfold privsSize sizeofLuidAttr
            rw [← Int.add_emod_right, Int.emod_eq_of_lt (by omega) (by omega)]
            omega
          omega
        have some := sidsSize_le all
        rw [privsSize_eq positive] at enough
        exact other ⟨sids, user, range, all, positive, by omega⟩
      rw [found, Except.bind, findDacl, if_pos privileges]
      rfl
  · rw [run_groups objattr user, findGroups_invalid counts]
    rfl

/-- **Counts that fit**: what happens to the list decides. -/
theorem run_fits (fits : r.Fits sids) :
    createTokenRequest r ≠ .error .outside ↔ (r.dacl sids < r.size → r.DaclInside (r.dacl sids)) := by
  have user := fits.user
  have within := fits.within
  have whole := user.attrs_add_room
  have size := groupsSize_near fits.primary fits.few
  have privileges := privsSize_eq fits.positive
  have found := @readGroups_eq r.mem r.size (r.attrs + 4 * r.groups) r.groups 0 r.attrs r.room
    (4 * r.groups) (by omega)
    (by omega) (by omega)
  rw [fits.found] at found
  obtain ⟨groups, found, inside⟩ := found
  have copied : Copied r.mem r.size (objattrLen r.mem) groups (r.attrs + (4 * r.groups + sids)) r.privs :=
    ⟨user.sidInside, inside, by omega⟩
  have isDacl : r.dacl sids = r.attrs + (4 * r.groups + sids) + r.privsSize := by
    unfold dacl
    omega
  rw [run_groups objattr user, findGroups_eq fits.primary (by omega), size, found, Except.bind]
  by_cases list : r.dacl sids < r.size
  · have rest : r.room - (4 * r.groups + sids) - r.privsSize = r.size - r.dacl sids := by omega
    rw [findDacl, if_neg (by omega), if_neg (by omega)]
    dsimp only
    rw [rest, ← isDacl, readAclIsValid_eq (by omega), DaclInside, imp_iff_right list]
    by_cases counts : CountsInside r.mem r.size (visitedAces r.mem (r.dacl sids) (r.size - r.dacl sids))
    · rw [if_pos counts, and_iff_right counts]
      cases valid : aclIsValid r.mem (r.dacl sids) (r.size - r.dacl sids) with
      | true =>
        have header := header_of_aclIsValid valid
        rw [imp_iff_right rfl]
        change createToken _ _ _ _ _ _ (some _) _ ≠ _ ↔ _
        rw [copied.createToken_inside_iff _ (by rintro _ ⟨⟩; omega)]
        simp
      | false => exact iff_of_true nofun nofun
    · rw [if_neg counts]
      exact iff_of_false (fun differ => differ rfl) fun both => counts both.1
  · rw [findDacl, if_neg (by omega), if_pos (by omega)]
    refine iff_of_true ?_ fun less => absurd less list
    change createToken _ _ _ _ _ _ none _ ≠ _
    rw [copied.createToken_inside_iff _ (by simp)]
    simp

end CreateTokenRequest

open CreateTokenRequest in
/-- **A request is read inside its payload, and turned down if its counts do not fit**, exactly under
the condition `Sound`. -/
theorem createTokenRequest_inside_iff (r : CreateTokenRequest) :
    (createTokenRequest r ≠ .error .outside ∧
      ((¬∃ sids, r.Fits sids) → createTokenRequest r = .error .invalidParameter)) ↔ r.Sound := by
  by_cases objattr : sizeofObjectAttributes ≤ r.size
  swap
  · refine iff_of_false (fun both => both.1 ?_) fun sound => objattr sound.objattr
    have read := @need_outside r.size 8 8 (Nat.lt_of_not_le objattr)
    simp only [createTokenRequest, findUser, getReqDataAfterObjattr, read, bind, Except.bind]
  by_cases user : r.HasUser
  swap
  · simp only [createTokenRequest, (findUser_eq objattr).2 user, bind, Except.bind]
    refine iff_of_true ⟨nofun, fun _ => trivial⟩ ⟨objattr, fun is => absurd is user, ?_⟩
    exact fun sids fits => absurd fits.user user
  by_cases few : r.PrimaryInRange ∧ r.groupsSize ≤ r.room → r.groups < 2 ^ 30
  · -- the groups are found, and only the list can lead out of the payload
    by_cases all : ∃ sids, r.Fits sids
    · obtain ⟨sids, fits⟩ := all
      rw [and_iff_left fun none => absurd ⟨sids, fits⟩ none, run_fits objattr fits]
      constructor
      · refine fun list => ⟨objattr, fun _ _ _ => .inl fits.few, fun sids' fits' => ?_⟩
        rw [← fits.unique fits']
        exact list
      · exact fun sound => sound.dacl sids fits
    · rw [run_not_fits objattr user few all]
      refine iff_of_true ⟨nofun, fun _ => rfl⟩ ⟨objattr, fun _ range size => .inl (few ⟨range, size⟩), ?_⟩
      exact fun sids fits => absurd ⟨sids, fits⟩ all
  · obtain ⟨⟨range, fits⟩, many⟩ := Classical.not_imp.mp few
    rw [run_far objattr user range fits (Nat.le_of_not_lt many)]
    constructor
    · rintro ⟨inside, -⟩
      refine ⟨objattr, fun _ _ _ => .inr ?_, fun sids is => absurd is.few many⟩
      by_contra other
      exact inside (if_neg other)
    · intro sound
      rw [if_pos ((sound.groups user range fits).resolve_left many)]
      exact ⟨nofun, fun _ => rfl⟩

/-- Object attributes without a descriptor and a name, and a user with no subauthorities. -/
def attributesAndUser : List UInt8 := List.replicate 24 0

/-- The attributes of a group, and a SID with no subauthorities. -/
def oneGroup : List UInt8 := List.replicate 12 0

/-- 2^30 groups, whose attributes have the length 0 in 32 bits. -/
def manyGroups : CreateTokenRequest := ⟨attributesAndUser ++ List.replicate 8 0, by decide, 1073741824, 0, 0⟩

/-- Four ways out of the payload: there are no object attributes; the SIDs of 2^30 groups are searched
4 GiB behind the user; the last entry of the list has the size 0; the list states a size of 65535. -/
theorem createTokenRequest_reads_outside :
    createTokenRequest ⟨[], by decide, 0, 0, 0⟩ = .error .outside ∧
      createTokenRequest manyGroups = .error .outside ∧
      createTokenRequest ⟨attributesAndUser ++ oneGroup ++
        [2, 0, 16, 0, 1, 0, 0, 0, 0, 0, 0, 0, 0, 0, 0, 0], by decide, 1, 0, 0⟩ = .error .outside ∧
      createTokenRequest ⟨attributesAndUser ++ oneGroup ++ [2, 0, 255, 255, 0, 0, 0, 0], by decide, 1, 0, 0⟩ =
        .error .outside := by
  refine ⟨by decide, ?_, by decide +kernel, by decide +kernel⟩
  have objattr : sizeofObjectAttributes ≤ manyGroups.size := by decide
  have user : manyGroups.HasUser := by unfold CreateTokenRequest.HasUser; decide +kernel
  have range : manyGroups.PrimaryInRange := by unfold CreateTokenRequest.PrimaryInRange; decide
  rw [CreateTokenRequest.run_far objattr user range (by decide +kernel) (by decide +kernel)]
  exact if_neg (by decide +kernel)

end FreeWindows.Security
