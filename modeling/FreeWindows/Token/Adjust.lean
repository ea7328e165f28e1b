/-
**Adjusting the privileges of a token, and copying it.**

`adjust_token_privileges` can report the states that it changes. It sizes its reply by a pass over the
request, and `token_adjust_privileges` fills it in a second one.

* `tokenAdjustPrivileges_modPrivs`: what is written are the states before each change, in order.
* **`adjust_announced_iff`**: the first pass counts the privileges that are removed, too, so that the reply
  announces more entries than are written if and only if the request removes one.
* **`duplicate_answers_iff`**: `privilege_add` takes the state of a privilege for its default, so a copy of
  a token answers like the token if and only if all privileges are in their default states.
-/

import FreeWindows.Token.Grant

namespace FreeWindows.Security

open List LuidAttr

def LuidAttr.enabledByDefault : BitVec 32 := 1
def LuidAttr.enabled : BitVec 32 := 2
def LuidAttr.removed : BitVec 32 := 4

def luidAndAttrFromPrivilege (privilege : Privilege) : LuidAttr :=
  ⟨privilege.luid, (if privilege.enabled then LuidAttr.enabled else 0) |||
    if privilege.byDefault then LuidAttr.enabledByDefault else 0⟩

/-- `privilege_remove`, of the privilege that `token_find_privilege` finds. -/
def privilegeRemove (token : Token) (luid : Luid) : Token :=
  { token with privileges := token.privileges.eraseP fun privilege => luid == privilege.luid }

/-- The assignment to `enabled` of the privilege that `token_find_privilege` finds. -/
def setEnabled (luid : Luid) (enabled : Bool) : List Privilege → List Privilege
  | [] => []
  | privilege :: rest =>
    if luid == privilege.luid then { privilege with enabled } :: rest
    else privilege :: setEnabled luid enabled rest

/-- The privilege gets the state of an entry that does not remove it. -/
def privilegeEnable (token : Token) (entry : LuidAttr) : Token :=
  { token with
    privileges := setEnabled entry.luid (entry.attrs &&& LuidAttr.enabled ≠ 0) token.privileges }

/-- What `token_adjust_privileges` does: the token, the entries written, of which it returns the number,
and whether it sets the error `STATUS_NOT_ALL_ASSIGNED`. -/
structure Adjusted where
  token : Token
  modPrivs : List LuidAttr
  notAllAssigned : Bool
deriving DecidableEq, Repr

def tokenAdjustPrivileges (token : Token) : (privs : List LuidAttr) → (modPrivsCount : Nat) → Adjusted
  | [], _ => ⟨token, [], false⟩
  | entry :: privs, modPrivsCount =>
    match tokenFindPrivilege token entry.luid false with
    | none => { tokenAdjustPrivileges token privs modPrivsCount with notAllAssigned := true }
    | some privilege =>
      if entry.attrs &&& LuidAttr.removed ≠ 0 then
        tokenAdjustPrivileges (privilegeRemove token entry.luid) privs modPrivsCount
      else
        match modPrivsCount with
        | 0 => tokenAdjustPrivileges (privilegeEnable token entry) privs 0
        | left + 1 =>
          let rest := tokenAdjustPrivileges (privilegeEnable token entry) privs left
          { rest with modPrivs := luidAndAttrFromPrivilege privilege :: rest.modPrivs }

def tokenDisablePrivileges (token : Token) : Token :=
  { token with
    privileges := token.privileges.map fun privilege => { privilege with enabled := false } }

/-- The privileges of a request that the token has. -/
def modifiedPrivCount (token : Token) (privs : List LuidAttr) : Nat :=
  privs.countP fun entry => (tokenFindPrivilege token entry.luid false).isSome

/-- The request `adjust_token_privileges` for a token: the number of entries in the reply, of `luid_attr`
with 12 bytes each, and what is done. -/
def adjustTokenPrivileges (token : Token) (privs : List LuidAttr) (disableAll getModifiedState : Bool)
    (replyMaxSize : Nat) : Nat × Adjusted :=
  let count := if getModifiedState ∧ ¬disableAll then
    min (modifiedPrivCount token privs) (replyMaxSize / 12) else 0
  (count, if disableAll then ⟨tokenDisablePrivileges token, [], false⟩
    else tokenAdjustPrivileges token privs count)

/-! ### The reply -/

/-- One element of the request is applied. -/
def applyEntry (token : Token) (entry : LuidAttr) : Token :=
  if (tokenFindPrivilege token entry.luid false).isSome then
    if entry.attrs &&& LuidAttr.removed ≠ 0 then privilegeRemove token entry.luid
    else privilegeEnable token entry
  else token

/-- The state of a privilege that an element changes without removing it. -/
def changedState (token : Token) (entry : LuidAttr) : Option LuidAttr :=
  if entry.attrs &&& LuidAttr.removed ≠ 0 then none
  else (tokenFindPrivilege token entry.luid false).map luidAndAttrFromPrivilege

/-- These states, each before its element is applied. -/
def changedStates (token : Token) : List LuidAttr → List LuidAttr
  | [] => []
  | entry :: privs => (changedState token entry).toList ++ changedStates (applyEntry token entry) privs

/-- **What is written** are the states before the changes, as far as there is room. -/
theorem tokenAdjustPrivileges_modPrivs (token : Token) (privs : List LuidAttr) (count : Nat) :
    (tokenAdjustPrivileges token privs count).modPrivs = (changedStates token privs).take count := by
  induction privs generalizing token count with
  | nil => rw [tokenAdjustPrivileges, changedStates, take_nil]
  | cons entry privs ih =>
    rw [tokenAdjustPrivileges, changedStates, applyEntry, changedState]
    cases tokenFindPrivilege token entry.luid false with
    | none => simp [ih]
    | some privilege =>
      by_cases removes : entry.attrs &&& removed = 0#32
      · cases count <;> simp [removes, ih]
      · simp [removes, ih]

/-- The token has a privilege of this name. -/
def Token.Names (token : Token) (luid : Luid) : Prop := luid ∈ token.privileges.map Privilege.luid

theorem find_isSome_iff (token : Token) (luid : Luid) :
    (tokenFindPrivilege token luid false).isSome = true ↔ token.Names luid := by
  have found : tokenFindPrivilege token luid false =
      token.privileges.find? fun privilege => luid == privilege.luid := by
    unfold tokenFindPrivilege
    cases token.privileges.find? fun privilege => luid == privilege.luid <;> rfl
  rw [found, find?_isSome, Token.Names, mem_map]
  simp only [beq_iff_eq, @eq_comm _ luid]

theorem setEnabled_names (luid : Luid) (enabled : Bool) (privileges : List Privilege) :
    (setEnabled luid enabled privileges).map Privilege.luid = privileges.map Privilege.luid := by
  induction privileges with
  | nil => rfl
  | cons privilege rest ih =>
    rw [setEnabled]
    split
    · rfl
    · rw [map_cons, ih, map_cons]

/-- No element adds a privilege, and only one that removes a privilege takes a name away. -/
theorem applyEntry_names (token : Token) (entry : LuidAttr) (luid : Luid) :
    ((applyEntry token entry).Names luid → token.Names luid) ∧
      (entry.attrs &&& removed = 0 ∨ ¬token.Names entry.luid →
        ((applyEntry token entry).Names luid ↔ token.Names luid)) := by
  rw [applyEntry]
  split
  · next named =>
    rw [find_isSome_iff] at named
    split
    · next removes =>
      refine ⟨fun still => ?_, fun kept => absurd named (kept.resolve_left removes)⟩
      exact (eraseP_sublist.map Privilege.luid).mem still
    · simp only [Token.Names, privilegeEnable, setEnabled_names]
      exact ⟨id, fun _ => trivial⟩
  · exact ⟨id, fun _ => Iff.rfl⟩

theorem changedState_length (token : Token) (entry : LuidAttr) :
    (changedState token entry).toList.length =
      if entry.attrs &&& removed = 0 ∧ (tokenFindPrivilege token entry.luid false).isSome
      then 1 else 0 := by
  rw [changedState]
  cases tokenFindPrivilege token entry.luid false <;> split <;> simp_all

/-- No more is written than the first pass counts, and less if it counts one that is removed. -/
theorem changedStates_length (initial token : Token) (privs : List LuidAttr)
    (names : ∀ luid, token.Names luid → initial.Names luid) :
    (changedStates token privs).length ≤ modifiedPrivCount initial privs ∧
      ((changedStates token privs).length = modifiedPrivCount initial privs →
        ∀ entry ∈ privs, (tokenFindPrivilege initial entry.luid false).isSome →
          entry.attrs &&& removed = 0) := by
  induction privs generalizing token with
  | nil => exact ⟨Nat.le_refl 0, nofun⟩
  | cons entry privs ih =>
    obtain ⟨atMost, exact⟩ := ih (applyEntry token entry) fun luid still =>
      names luid ((applyEntry_names token entry luid).1 still)
    have named := names entry.luid
    rw [← find_isSome_iff, ← find_isSome_iff] at named
    rw [changedStates, length_append, changedState_length, modifiedPrivCount, countP_cons,
      ← modifiedPrivCount, forall_mem_cons]
    refine ⟨?_, fun same => ⟨fun counted => ?_, exact ?_⟩⟩
    · split
      · next both =>
        rw [if_pos (named both.2)]
        omega
      · omega
    · by_contra removes
      rw [if_neg fun both => removes both.1, if_pos counted] at same
      omega
    · split at same
      · next both =>
        rw [if_pos (named both.2)] at same
        omega
      · omega

/-- All that is counted is written, if nothing is removed. -/
theorem changedStates_all (initial token : Token) (privs : List LuidAttr)
    (names : ∀ luid, token.Names luid ↔ initial.Names luid)
    (keeps : ∀ entry ∈ privs, (tokenFindPrivilege initial entry.luid false).isSome →
      entry.attrs &&& removed = 0) :
    (changedStates token privs).length = modifiedPrivCount initial privs := by
  induction privs generalizing token with
  | nil => rfl
  | cons entry privs ih =>
    obtain ⟨kept, others⟩ := forall_mem_cons.mp keeps
    have same : (tokenFindPrivilege token entry.luid false).isSome =
        (tokenFindPrivilege initial entry.luid false).isSome := by
      rw [Bool.eq_iff_iff, find_isSome_iff, find_isSome_iff, names]
    rw [changedStates, length_append, changedState_length, modifiedPrivCount, countP_cons,
      ← modifiedPrivCount, same, ih (applyEntry token entry) ?_ others, Nat.add_comm]
    · simp only [and_iff_right_of_imp kept]
    · intro luid
      rw [← names luid]
      refine (applyEntry_names token entry luid).2 ?_
      rw [← find_isSome_iff, same]
      by_cases counted : (tokenFindPrivilege initial entry.luid false).isSome = true
      · exact .inl (kept counted)
      · exact .inr counted

/-- **The entries announced.** With a reply buffer that is large enough, the entries written are the states
before the changes, and they are as many as announced if and only if the request removes no privilege of
the token. -/
theorem adjust_announced_iff (token : Token) (privs : List LuidAttr) (replyMaxSize : Nat)
    (room : 12 * modifiedPrivCount token privs ≤ replyMaxSize) :
    ((adjustTokenPrivileges token privs false true replyMaxSize).1 =
        (adjustTokenPrivileges token privs false true replyMaxSize).2.modPrivs.length ∧
      (adjustTokenPrivileges token privs false true replyMaxSize).2.modPrivs =
        changedStates token privs) ↔
      ∀ entry ∈ privs, (tokenFindPrivilege token entry.luid false).isSome →
        entry.attrs &&& LuidAttr.removed = 0 := by
  obtain ⟨atMost, exact⟩ := changedStates_length token token privs fun _ => id
  have count : min (modifiedPrivCount token privs) (replyMaxSize / 12) =
      modifiedPrivCount token privs := by omega
  simp only [adjustTokenPrivileges, tokenAdjustPrivileges_modPrivs, count, Bool.false_eq_true,
    not_false_eq_true, and_self, if_true, if_false, take_of_length_le atMost, and_true]
  exact ⟨fun same => exact same.symm, fun keeps =>
    (changedStates_all token token privs (fun _ => Iff.rfl) keeps).symm⟩

/-- A token with one privilege that is enabled, as `create_token` makes it. -/
def enabledToken : Token := { aliceToken [⟨7, alice⟩] with privileges := [privilegeAdd ⟨20, 0⟩ true] }

theorem adjust_announced_iff_disable :
    (adjustTokenPrivileges enabledToken [⟨⟨20, 0⟩, 0⟩, ⟨⟨21, 0⟩, 4⟩] false true 100).1 = 1 :=
  (adjust_announced_iff enabledToken [⟨⟨20, 0⟩, 0⟩, ⟨⟨21, 0⟩, 4⟩] 100 (by decide)).mpr (by decide) |>.1

/-- A privilege that is removed is announced, and nothing is written. -/
theorem removed_announced :
    (adjustTokenPrivileges enabledToken [⟨⟨20, 0⟩, 4⟩] false true 100).1 = 1 ∧
      (adjustTokenPrivileges enabledToken [⟨⟨20, 0⟩, 4⟩] false true 100).2.modPrivs = [] := by
  decide

/-! ### Copies -/

/-- A reply with its length, and its data unless the buffer is too small. -/
def sizedReply {α : Type} (replyMaxSize len : Nat) (data : α) : Nat × Option α :=
  (len, if len ≤ replyMaxSize then some data else none)

/-- The request `get_token_privileges`. -/
def getTokenPrivileges (token : Token) (replyMaxSize : Nat) : Nat × Option (List LuidAttr) :=
  sizedReply replyMaxSize (12 * token.privileges.length) (token.privileges.map luidAndAttrFromPrivilege)

/-- `sid_len`. -/
def Sid.len (sid : Sid) : Nat := 8 + 4 * sid.subAuth.length

/-- The request `get_token_groups`. -/
def getTokenGroups (token : Token) (attrMask : BitVec 32) (replyMaxSize : Nat) :
    Nat × Option (List (BitVec 32) × List Sid) :=
  let groups := token.groups.filter fun group => attrMask = 0 ∨ group.attrs &&& attrMask ≠ 0
  sizedReply replyMaxSize (4 * groups.length + (groups.map fun group => group.sid.len).sum)
    (groups.map Group.attrs, groups.map Group.sid)

/-- `TOKEN_INFORMATION_CLASS`, as far as it is asked for. -/
inductive WhichSid
  | tokenUser
  | tokenPrimaryGroup
  | tokenOwner
  | other
deriving DecidableEq, Repr

/-- The request `get_token_sid`; `create_token` and `token_duplicate` set the owner with the primary
group. -/
def getTokenSid (token : Token) (whichSid : WhichSid) (replyMaxSize : Nat) : Nat × Option Sid :=
  let sid := match whichSid with
    | .tokenUser => some token.user
    | .tokenPrimaryGroup | .tokenOwner =>
      (token.primaryGroup.bind (token.groups[·]?)).map Group.sid
    | .other => none
  match sid with
  | some sid => sizedReply replyMaxSize sid.len sid
  | none => (0, none)

theorem luidAndAttr_inj (privilege : Privilege) :
    luidAndAttrFromPrivilege (privilegeAdd privilege.luid privilege.enabled) =
        luidAndAttrFromPrivilege privilege ↔ privilege.byDefault = privilege.enabled := by
  obtain ⟨luid, enabled, byDefault⟩ := privilege
  cases enabled <;> cases byDefault <;>
    simp [luidAndAttrFromPrivilege, privilegeAdd, enabled, enabledByDefault]

/-- **A copy of a token** without filters answers like the token if and only if the privileges of the
token are in their default states. -/
theorem duplicate_answers_iff (src token : Token) (primary : Bool) (impersonationLevel : Int)
    (done : tokenDuplicate src primary impersonationLevel [] [] = some token) :
    ((∀ size, getTokenPrivileges token size = getTokenPrivileges src size) ∧
      (∀ mask size, getTokenGroups token mask size = getTokenGroups src mask size) ∧
      ∀ which size, getTokenSid token which size = getTokenSid src which size) ↔
      ∀ privilege ∈ src.privileges, privilege.byDefault = privilege.enabled := by
  have groups : src.groups.map (duplicateGroup []) = src.groups :=
    map_id'' (fun _ => rfl) _
  have privileges : (src.privileges.filter fun privilege => !filterPrivilege privilege []) =
      src.privileges := filter_eq_self.mpr fun _ _ => rfl
  rw [tokenDuplicate, groups, privileges] at done
  split at done
  · cases done
  split at done
  · cases done
  cases done
  rw [and_iff_left ⟨fun _ _ => rfl, fun _ _ => rfl⟩]
  simp only [getTokenPrivileges, sizedReply, length_map, map_map, Function.comp_def,
    Prod.mk.injEq, true_and]
  constructor
  · intro same privilege member
    have := same (12 * src.privileges.length)
    rw [if_pos (Nat.le_refl _), if_pos (Nat.le_refl _), Option.some.injEq, map_inj_left] at this
    exact (luidAndAttr_inj privilege).mp (this privilege member)
  · intro defaults size
    rw [map_congr_left fun privilege member => (luidAndAttr_inj privilege).mpr
      (defaults privilege member)]

theorem duplicate_answers_iff_enabled :
    ∃ token, tokenDuplicate enabledToken true 0 [] [] = some token ∧
      ∀ size, getTokenPrivileges token size = getTokenPrivileges enabledToken size :=
  ⟨_, rfl, ((duplicate_answers_iff enabledToken _ true 0 rfl).mpr (by decide)).1⟩

/-- The token after its privilege was disabled. -/
def disabledToken : Token := (tokenAdjustPrivileges enabledToken [⟨⟨20, 0⟩, 0⟩] 0).token

/-- In a copy of it, the privilege is not enabled by default any more. -/
theorem copy_differs :
    getTokenPrivileges disabledToken 12 = (12, some [⟨⟨20, 0⟩, LuidAttr.enabledByDefault⟩]) ∧
      (tokenDuplicate disabledToken true 0 [] []).map (getTokenPrivileges · 12) =
        some (12, some [⟨⟨20, 0⟩, 0⟩]) := by
  decide

end FreeWindows.Security
