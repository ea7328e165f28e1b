/-
**Tokens and access checks of the wine server.**

`server/token.c`: a token names a user, the groups the user belongs to and the privileges held.
`token_access_check` walks the access control list of a security descriptor for a token, and the
`filter_token` request makes a restricted copy of a token with `token_duplicate`.

A security descriptor is modelled after its parsing: owner and group SIDs that may be missing, and
a list of access control entries. Out parameters are fields of the outcome; `none` is one that was
not written. The identifiers of the tokens, their default DACLs and their own security descriptors
are left out, and allocations succeed.
-/

import Mathlib

namespace FreeWindows.Security

/-- `struct sid`; the sub-authority count is the length of the list. -/
structure Sid where
  revision : BitVec 8
  idAuth : List (BitVec 8)
  subAuth : List (BitVec 32)
deriving DecidableEq, Repr

/-- `equal_sid`: the same count and the same bytes. -/
def equalSid (sid1 sid2 : Sid) : Bool :=
  sid1.subAuth.length == sid2.subAuth.length && sid1 == sid2

@[simp] theorem equalSid_iff (sid1 sid2 : Sid) : equalSid sid1 sid2 = true ↔ sid1 = sid2 := by
  rw [equalSid, Bool.and_eq_true, beq_iff_eq, beq_iff_eq]
  exact and_iff_right_of_imp fun same => by rw [same]

/-- `struct luid`. -/
structure Luid where
  lowPart : BitVec 32
  highPart : BitVec 32
deriving DecidableEq, Repr

/-- `struct luid_attr`. -/
structure LuidAttr where
  luid : Luid
  attrs : BitVec 32
deriving DecidableEq, Repr

def seSecurityPrivilege : Luid := ⟨8, 0⟩

/-- `struct privilege`; `byDefault` is the field `def`. -/
structure Privilege where
  luid : Luid
  enabled : Bool
  byDefault : Bool
deriving DecidableEq, Repr

/-- `struct group`. -/
structure Group where
  attrs : BitVec 32
  sid : Sid
deriving DecidableEq, Repr

/-- `struct token`. The primary group is a pointer to one of the groups: its place in the list. -/
structure Token where
  privileges : List Privilege
  groups : List Group
  user : Sid
  primaryGroup : Option Nat
  primary : Bool
  sessionId : Nat
  impersonationLevel : Int
  elevation : Nat
deriving DecidableEq, Repr

inductive AceType
  | accessAllowed
  | accessDenied
  | systemAudit
  | systemAlarm
  | systemMandatoryLabel
deriving DecidableEq, Repr

/-- `struct ace` and the SID after it. -/
structure Ace where
  type : AceType
  flags : BitVec 8
  mask : BitVec 32
  sid : Sid
deriving DecidableEq, Repr

/-- What `sd_get_owner`, `sd_get_group` and `sd_get_dacl` find in a security descriptor. -/
structure SecurityDescriptor where
  owner : Option Sid
  group : Option Sid
  daclPresent : Bool
  dacl : Option (List Ace)
deriving DecidableEq, Repr

/-- `struct generic_map`. -/
structure GenericMap where
  read : BitVec 32
  write : BitVec 32
  exec : BitVec 32
  all : BitVec 32
deriving DecidableEq, Repr

inductive Status
  | success
  | genericNotMapped
  | invalidSecurityDescr
  | bufferTooSmall
  | privilegeNotHeld
  | accessDenied
deriving DecidableEq, Repr

/-! ### Flags -/

def genericRead : BitVec 32 := 0x80000000#32
def genericWrite : BitVec 32 := 0x40000000#32
def genericExecute : BitVec 32 := 0x20000000#32
def genericAll : BitVec 32 := 0x10000000#32
def maximumAllowed : BitVec 32 := 0x02000000#32
def accessSystemSecurity : BitVec 32 := 0x01000000#32
def standardRightsRequired : BitVec 32 := 0x000f0000#32
def synchronize : BitVec 32 := 0x00100000#32

def genericBits : BitVec 32 := genericRead ||| genericWrite ||| genericExecute ||| genericAll

def seGroupEnabledByDefault : BitVec 32 := 2#32
def seGroupEnabled : BitVec 32 := 4#32
def seGroupUseForDenyOnly : BitVec 32 := 0x10#32

def inheritOnlyAce : BitVec 8 := 8#8

def sePrivilegeUsedForAccess : BitVec 32 := 0x80000000#32

def mapAccess (access : BitVec 32) (mapping : GenericMap) : BitVec 32 :=
  let access := if access &&& genericRead ≠ 0 then access ||| mapping.read else access
  let access := if access &&& genericWrite ≠ 0 then access ||| mapping.write else access
  let access := if access &&& genericExecute ≠ 0 then access ||| mapping.exec else access
  let access := if access &&& genericAll ≠ 0 then access ||| mapping.all else access
  access &&& ~~~genericBits

/-! ### Filtering a token -/

def filterGroup (group : Group) (filter : List Sid) : Bool :=
  filter.any fun sid => equalSid group.sid sid

def filterPrivilege (privilege : Privilege) (filter : List LuidAttr) : Bool :=
  filter.any fun entry => privilege.luid == entry.luid

/-- What `token_duplicate` copies of a group. -/
def duplicateGroup (removeGroups : List Sid) (group : Group) : Group :=
  if filterGroup group removeGroups then
    { group with
      attrs := (group.attrs &&& ~~~(seGroupEnabled ||| seGroupEnabledByDefault)) |||
        seGroupUseForDenyOnly }
  else group

/-- `privilege_add`: the new entry. -/
def privilegeAdd (luid : Luid) (enabled : Bool) : Privilege := ⟨luid, enabled, enabled⟩

def securityAnonymous : Int := 0
def securityDelegation : Int := 3

/-- `token_duplicate`; none is an error, or the failed assertion that the copy has a primary
group. -/
def tokenDuplicate (src : Token) (primary : Bool) (impersonationLevel : Int)
    (removePrivs : List LuidAttr) (removeGroups : List Sid) : Option Token :=
  if !primary ∧ (impersonationLevel < securityAnonymous ∨ impersonationLevel > securityDelegation ∨
      (!src.primary ∧ impersonationLevel > src.impersonationLevel)) then none
  else if src.primaryGroup.all (src.groups.length ≤ ·) then none
  else
    some
      { privileges := (src.privileges.filter fun privilege =>
          !filterPrivilege privilege removePrivs).map fun privilege =>
            privilegeAdd privilege.luid privilege.enabled
        groups := src.groups.map (duplicateGroup removeGroups)
        user := src.user
        primaryGroup := src.primaryGroup
        primary := primary
        sessionId := src.sessionId
        impersonationLevel := if primary then -1 else impersonationLevel
        elevation := src.elevation }

/-- The `filter_token` request: the new token. -/
def filterToken (src : Token) (filterPrivileges : List LuidAttr) (filterGroups : List Sid) :
    Option Token :=
  tokenDuplicate src src.primary src.impersonationLevel filterPrivileges filterGroups

/-! ### Checking access -/

def tokenFindPrivilege (token : Token) (luid : Luid) (enabledOnly : Bool) : Option Privilege :=
  (token.privileges.find? fun privilege => luid == privilege.luid).filter fun privilege =>
    !(enabledOnly && !privilege.enabled)

/-- `token_check_privileges` without the report of the privileges used. -/
def tokenCheckPrivileges (token : Token) (allRequired : Bool) (reqprivs : List LuidAttr) : Bool :=
  let enabledCount := reqprivs.countP fun entry =>
    (tokenFindPrivilege token entry.luid true).any fun privilege => privilege.enabled
  if allRequired then enabledCount == reqprivs.length else decide (enabledCount > 0)

def tokenSidPresent (token : Token) (sid : Sid) (deny : Bool) : Bool :=
  equalSid token.user sid || token.groups.any fun group =>
    group.attrs &&& seGroupEnabled != 0 &&
      !(!deny && group.attrs &&& seGroupUseForDenyOnly != 0) && equalSid group.sid sid

/-- What `token_access_check` returns and writes through its pointers. -/
structure Outcome where
  result : Status
  grantedAccess : BitVec 32
  status : Option Status
  /-- The count of privileges, where the caller asked for it. -/
  privCount : Option Nat
  privs : Option LuidAttr
deriving DecidableEq, Repr

/-- The loop over the DACL: `current_access` and `denied_access` where it ends. -/
def daclLoop (token : Token) (mapping : GenericMap) (desired : BitVec 32) :
    List Ace → (current denied : BitVec 32) → BitVec 32 × BitVec 32
  | [], current, denied => (current, denied)
  | ace :: rest, current, denied =>
    -- `*granted_access` is still zero when the end of the loop compares it
    let next (current denied : BitVec 32) : BitVec 32 × BitVec 32 :=
      if desired = 0 then (current, denied)
      else daclLoop token mapping desired rest current denied
    let access := mapAccess ace.mask mapping
    if ace.flags &&& inheritOnlyAce ≠ 0 then daclLoop token mapping desired rest current denied
    else match ace.type with
      | .accessDenied =>
        if tokenSidPresent token ace.sid true then
          if desired &&& maximumAllowed ≠ 0 then next current (denied ||| access)
          else if desired &&& access ≠ 0 then (current, denied ||| (access &&& ~~~current))
          else next current (denied ||| (access &&& ~~~current))
        else next current denied
      | .accessAllowed =>
        if tokenSidPresent token ace.sid false then
          if desired &&& maximumAllowed ≠ 0 then next (current ||| access) denied
          else next (current ||| (access &&& ~~~denied)) denied
        else next current denied
      | _ => next current denied

/-- The part of `token_access_check` after the label `done`. -/
def accessDone (desired : BitVec 32) (walked : BitVec 32 × BitVec 32) (privCount : Option Nat)
    (privs : Option LuidAttr) : Outcome :=
  let granted :=
    if desired &&& maximumAllowed ≠ 0 then walked.1 &&& ~~~walked.2
    else if walked.1 &&& desired = desired then walked.1 &&& desired
    else 0
  ⟨.success, granted, some (if granted = 0 then .accessDenied else .success), privCount, privs⟩

/-- The steps 3 and 4 of `token_access_check`: ownership, and the rights that the DACL gives. -/
def accessByDacl (token : Token) (owner : Sid) (dacl : List Ace) (mapping : GenericMap)
    (desired current : BitVec 32) (privCount : Option Nat) (privs : Option LuidAttr) : Outcome :=
  if tokenSidPresent token owner false then
    let current := current ||| (standardRightsRequired ||| synchronize)
    if desired = current then ⟨.success, current, some .success, privCount, privs⟩
    else accessDone desired (daclLoop token mapping desired dacl current 0) privCount privs
  else accessDone desired (daclLoop token mapping desired dacl current 0) privCount privs

/-- `token_access_check`. A caller that passes no pointer for the privileges has `privCount` none;
otherwise it is the room for them. -/
def tokenAccessCheck (token : Token) (sd : SecurityDescriptor) (desired : BitVec 32)
    (privCount : Option Nat) (mapping : GenericMap) : Outcome :=
  if desired &&& genericBits ≠ 0 then
    ⟨.genericNotMapped, 0, none, privCount.map fun _ => 0, none⟩
  else
    match sd.owner, sd.group with
    | some owner, some _ =>
      match sd.daclPresent, sd.dacl with
      | true, some dacl =>
        if desired &&& accessSystemSecurity ≠ 0 then
          if tokenCheckPrivileges token true [⟨seSecurityPrivilege, 0⟩] then
            if privCount = some 0 then ⟨.bufferTooSmall, 0, none, some 1, none⟩
            else
              let privs := privCount.map fun _ =>
                (⟨seSecurityPrivilege, sePrivilegeUsedForAccess⟩ : LuidAttr)
              let privCount := privCount.map fun _ => 1
              if desired = accessSystemSecurity then
                ⟨.success, accessSystemSecurity, some .success, privCount, privs⟩
              else accessByDacl token owner dacl mapping desired accessSystemSecurity privCount privs
          else ⟨.success, 0, some .privilegeNotHeld, privCount.map fun _ => 0, none⟩
        else accessByDacl token owner dacl mapping desired 0 (privCount.map fun _ => 0) none
      | _, _ =>
        ⟨.success, if desired &&& maximumAllowed ≠ 0 then mapping.all else desired, some .success,
          privCount.map fun _ => 0, none⟩
    | _, _ => ⟨.invalidSecurityDescr, 0, none, privCount.map fun _ => 0, none⟩

/-- Access is granted: both the call and the reported status are `STATUS_SUCCESS`. -/
def Outcome.Grants (outcome : Outcome) : Prop :=
  outcome.result = .success ∧ outcome.status = some .success

end FreeWindows.Security
