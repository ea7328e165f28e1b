/-
**Filtering a token.**

The `filter_token` request copies a token, takes the enabled flag off the removed groups and marks
them as usable for deny entries only. But `token_sid_present` skips a group that is not enabled for
deny entries too, so to the check a removed group is simply gone (`filterToken_has`). A filtered
token therefore never has more rights given (`Held.of_remaining`), but it can pass a deny entry
for a removed group:

* `grants_complete`: what a check that grants something has passed;
* `filterToken_grants_iff`: filtering gains access exactly when the list has such an entry in front
  of the entries that give the filtered token all that is desired.
-/

import FreeWindows.Token.Grant

namespace FreeWindows.Security

open List

/-! ### What is left of a token -/

/-- The SIDs of `token` with those in `removed` taken away, of which the user's stays. -/
def remaining (token : Token) (removed : List Sid) : Presence := fun sid deny =>
  token.has sid deny && (token.user == sid || !removed.contains sid)

theorem remaining_iff (token : Token) (removed : List Sid) (sid : Sid) (deny : Bool) :
    remaining token removed sid deny = true ↔
      token.has sid deny = true ∧ (token.user = sid ∨ sid ∉ removed) := by
  simp [remaining]

theorem removed_attrs (attrs : BitVec 32) :
    ((attrs &&& ~~~(seGroupEnabled ||| seGroupEnabledByDefault)) ||| seGroupUseForDenyOnly) &&&
      seGroupEnabled = 0 := by
  have enabled : ∀ bit < 32, seGroupEnabled.getLsbD bit = true →
      (seGroupEnabled ||| seGroupEnabledByDefault).getLsbD bit = true ∧
        seGroupUseForDenyOnly.getLsbD bit = false := by decide
  rw [Lib.and_eq_zero_iff_bits]
  intro bit kept
  by_contra set
  rw [Bool.not_eq_false] at set
  obtain ⟨cleared, other⟩ := enabled bit (BitVec.lt_of_getLsbD set) set
  rw [BitVec.getLsbD_or, BitVec.getLsbD_and, BitVec.getLsbD_not, cleared, other] at kept
  simp at kept

theorem tokenSidPresent_iff (token : Token) (sid : Sid) (deny : Bool) :
    tokenSidPresent token sid deny = true ↔ token.user = sid ∨ ∃ group ∈ token.groups,
      group.attrs &&& seGroupEnabled ≠ 0 ∧
        (deny = true ∨ group.attrs &&& seGroupUseForDenyOnly = 0) ∧ group.sid = sid := by
  simp [tokenSidPresent, and_assoc]

section Filtered

variable {token filtered : Token} {privileges : List LuidAttr} {removed : List Sid}

theorem filterGroup_iff (group : Group) : filterGroup group removed = true ↔ group.sid ∈ removed := by
  simp [filterGroup]

/-- Of the privileges with one identifier, all are kept or none is. -/
theorem find?_kept (luid : Luid) (list : List Privilege) :
    (list.filter fun privilege => !filterPrivilege privilege privileges).find?
        (fun privilege => luid == privilege.luid) =
      if ∀ entry ∈ privileges, entry.luid ≠ luid then
        list.find? fun privilege => luid == privilege.luid
      else none := by
  induction list with
  | nil => simp
  | cons privilege rest ih =>
    by_cases same : luid = privilege.luid
    · have gone_iff : filterPrivilege privilege privileges = true ↔
          ¬∀ entry ∈ privileges, entry.luid ≠ luid := by
        simp [filterPrivilege, same, @eq_comm _ privilege.luid]
      by_cases kept : ∀ entry ∈ privileges, entry.luid ≠ luid
      · have stays : filterPrivilege privilege privileges = false :=
          Bool.eq_false_iff.mpr fun gone => gone_iff.mp gone kept
        rw [if_pos kept, filter_cons_of_pos (by simp [stays]),
          find?_cons_of_pos (by simp [same]), find?_cons_of_pos (by simp [same])]
      · have gone := gone_iff.mpr kept
        rw [filter_cons_of_neg (by simp [gone]), ih, if_neg kept, if_neg kept]
    · rw [find?_cons_of_neg (by simp [same]), ← ih, filter_cons]
      split
      · rw [find?_cons_of_neg (by simp [same])]
      · rfl

theorem filterToken_spec (done : filterToken token privileges removed = some filtered) :
    filtered.user = token.user ∧ filtered.groups = token.groups.map (duplicateGroup removed) ∧
      filtered.privileges = (token.privileges.filter fun privilege =>
        !filterPrivilege privilege privileges).map fun privilege =>
          privilegeAdd privilege.luid privilege.enabled := by
  rw [filterToken, tokenDuplicate] at done
  split at done
  · nomatch done
  split at done
  · nomatch done
  obtain rfl := Option.some.inj done
  exact ⟨rfl, rfl, rfl⟩

/-- **A removed group is gone**, for deny entries as for allow entries. -/
theorem filterToken_has (done : filterToken token privileges removed = some filtered) :
    filtered.has = remaining token removed := by
  obtain ⟨user, groups, -⟩ := filterToken_spec done
  funext sid deny
  rw [Bool.eq_iff_iff, remaining_iff, tokenSidPresent_iff, tokenSidPresent_iff, user, groups]
  simp only [mem_map, exists_exists_and_eq_and]
  constructor
  · rintro (own | ⟨group, member, enabled, usable, rfl⟩)
    · exact ⟨.inl own, .inl own⟩
    · by_cases gone : filterGroup group removed
      · simp only [duplicateGroup, if_pos gone] at enabled
        exact absurd (removed_attrs group.attrs) enabled
      · simp only [duplicateGroup, if_neg gone] at enabled usable ⊢
        exact ⟨.inr ⟨group, member, enabled, usable, rfl⟩,
          .inr fun inList => gone ((filterGroup_iff group).mpr inList)⟩
  · rintro ⟨own | ⟨group, member, enabled, usable, rfl⟩, stays⟩
    · exact .inl own
    · refine stays.imp_right fun kept => ⟨group, member, ?_⟩
      have stays : ¬filterGroup group removed = true := fun gone =>
        kept ((filterGroup_iff group).mp gone)
      simp only [duplicateGroup, if_neg stays]
      exact ⟨enabled, usable, trivial⟩

theorem holdsSecurity_eq (token : Token) :
    holdsSecurity token =
      (token.privileges.find? fun privilege => seSecurityPrivilege == privilege.luid).any
        fun privilege => privilege.enabled := by
  simp only [holdsSecurity, tokenCheckPrivileges, tokenFindPrivilege, countP_singleton]
  cases token.privileges.find? (fun privilege => seSecurityPrivilege == privilege.luid) with
  | none => rfl
  | some privilege => cases enabled : privilege.enabled <;> simp [enabled]

/-- Filtering takes the removed privileges, and changes no other. -/
theorem filterToken_holdsSecurity (done : filterToken token privileges removed = some filtered) :
    holdsSecurity filtered = true ↔
      holdsSecurity token = true ∧ ∀ entry ∈ privileges, entry.luid ≠ seSecurityPrivilege := by
  rw [holdsSecurity_eq, holdsSecurity_eq, (filterToken_spec done).2.2, find?_map, Option.any_map]
  simp only [Function.comp_def, privilegeAdd, find?_kept]
  split
  · next kept => exact (and_iff_left kept).symm
  · next taken => simp [taken]

/-! ### Two checks -/

/-- What a token with fewer SIDs holds, the token holds. -/
theorem Held.of_remaining {owner : Sid} {mapping : GenericMap} {desired current : BitVec 32}
    {aces : List Ace} (held : Held (remaining token removed) owner mapping desired current aces) :
    Held token.has owner mapping desired current aces := by
  have has : ∀ sid deny, remaining token removed sid deny = true → token.has sid deny = true :=
    fun sid deny left => ((remaining_iff ..).mp left).1
  intro bit wanted
  refine (held bit wanted).imp (fun given => ?_) fun ⟨ace, member, allowed, bitSet⟩ => ?_
  · rw [BitVec.getLsbD_or, Bool.or_eq_true] at given ⊢
    refine given.imp_right fun own => ?_
    unfold ownerRights at own ⊢
    split at own
    · rwa [if_pos (has _ _ ‹_›)]
    · exact absurd own (by simp)
  · obtain ⟨effective, type, present⟩ := (allows_iff ..).mp allowed
    exact ⟨ace, member, (allows_iff ..).mpr ⟨effective, type, has _ _ present⟩, bitSet⟩

/-- The list has a deny entry for a removed group that keeps the desired access from the token, and
the entries for the remaining SIDs, in front of any deny entry for one of those, give all of it. -/
def PassesDeny (token : Token) (privileges : List LuidAttr) (removed : List Sid)
    (sd : SecurityDescriptor) (desired : BitVec 32) (privCount : Option Nat)
    (mapping : GenericMap) : Prop :=
  ∃ owner before ace after, sd.owner = some owner ∧ sd.group ≠ none ∧ sd.daclPresent = true ∧
    sd.dacl = some (before ++ ace :: after) ∧ desired &&& genericBits = 0 ∧ desired ≠ 0 ∧
    (desired &&& accessSystemSecurity ≠ 0 → holdsSecurity token ∧
      (∀ entry ∈ privileges, entry.luid ≠ seSecurityPrivilege) ∧ privCount ≠ some 0) ∧
    -- the entry denies a desired right to the token, through a removed group only
    stops token.has mapping desired ace = true ∧ ace.sid ∈ removed ∧ token.user ≠ ace.sid ∧
    ¬Held token.has owner mapping desired (securityRights desired) before ∧
    Held (remaining token removed) owner mapping desired (securityRights desired)
      (reached (remaining token removed) mapping desired (before ++ ace :: after))

variable {sd : SecurityDescriptor} {desired : BitVec 32} {mapping : GenericMap}

/-- A check that grants something has passed the tests on the request and the descriptor. -/
theorem grants_complete (privCount : Option Nat)
    (grants : (tokenAccessCheck token sd desired privCount mapping).Grants) :
    desired &&& genericBits = 0 ∧ ∃ owner group, sd.owner = some owner ∧ sd.group = some group := by
  have generic : desired &&& genericBits = 0 := by_contra fun meets => by
    rw [tokenAccessCheck, if_pos meets] at grants
    cases grants.1
  have complete : ¬(sd.owner = none ∨ sd.group = none) := fun incomplete => by
    rw [Outcome.Grants, tokenAccessCheck_incomplete generic incomplete privCount] at grants
    cases grants.1
  rw [not_or] at complete
  obtain ⟨owner, hasOwner⟩ := Option.ne_none_iff_exists'.mp complete.1
  obtain ⟨group, hasGroup⟩ := Option.ne_none_iff_exists'.mp complete.2
  exact ⟨generic, owner, group, hasOwner, hasGroup⟩

/-- **Filtering a token gains access** exactly by passing a deny entry for a removed group: for a
desired access without `MAXIMUM_ALLOWED`, what is granted to the filtered token is granted to the
token it was made from, if and only if there is no such entry. -/
theorem filterToken_grants_iff (done : filterToken token privileges removed = some filtered)
    (plain : desired &&& maximumAllowed = 0) (privCount : Option Nat) :
    ((tokenAccessCheck filtered sd desired privCount mapping).Grants →
        (tokenAccessCheck token sd desired privCount mapping).Grants) ↔
      ¬PassesDeny token privileges removed sd desired privCount mapping := by
  constructor
  · rintro keeps ⟨owner, before, ace, after, hasOwner, hasGroup, present, list, generic, nonzero,
      security, stop, -, -, lacking, held⟩
    obtain ⟨group, hasGroup⟩ := Option.ne_none_iff_exists'.mp hasGroup
    have granted := keeps ((grants_dacl_iff plain generic hasOwner hasGroup present list
      privCount).mpr ⟨nonzero, fun wanted => ⟨(filterToken_holdsSecurity done).mpr
        ⟨(security wanted).1, (security wanted).2.1⟩, (security wanted).2.2⟩,
        filterToken_has done ▸ held⟩)
    -- the token does not get past the deny entry
    have reaches := ((grants_dacl_iff plain generic hasOwner hasGroup present list
      privCount).mp granted).2.2
    exact lacking (reaches.mono (reached_sub _ _ _ before after stop))
  · intro passes granted
    obtain ⟨generic, owner, group, hasOwner, hasGroup⟩ := grants_complete privCount granted
    by_cases isOpen : ¬(sd.daclPresent = true ∧ sd.dacl ≠ none)
    · rw [tokenAccessCheck_open generic hasOwner hasGroup isOpen]
      exact ⟨rfl, rfl⟩
    obtain ⟨present, listed⟩ := not_not.mp isOpen
    obtain ⟨dacl, list⟩ := Option.ne_none_iff_exists'.mp listed
    rw [grants_dacl_iff plain generic hasOwner hasGroup present list, filterToken_has done] at granted
    obtain ⟨nonzero, security, held⟩ := granted
    rw [grants_dacl_iff plain generic hasOwner hasGroup present list]
    refine ⟨nonzero, fun wanted => ⟨((filterToken_holdsSecurity done).mp (security wanted).1).1,
      (security wanted).2⟩, ?_⟩
    rcases reached_cases token.has mapping desired dacl with all | ⟨ace, after, split, stop⟩
    · rw [all]
      exact held.of_remaining.mono (List.takeWhile_prefix _).subset
    by_contra lacking
    -- the entry that stops the token does not stop the filtered one, so it is for a removed group
    have gone : ¬(token.user = ace.sid ∨ ace.sid ∉ removed) := by
      intro stays
      obtain ⟨denied, meets⟩ := (stops_iff ..).mp stop
      obtain ⟨effective, type, has⟩ := (denies_iff ..).mp denied
      have stopsToo : stops (remaining token removed) mapping desired ace = true :=
        (stops_iff ..).mpr ⟨(denies_iff ..).mpr ⟨effective, type,
          (remaining_iff ..).mpr ⟨has, stays⟩⟩, meets⟩
      rw [split] at held
      exact lacking (held.mono (reached_sub _ _ _ _ after stopsToo)).of_remaining
    rw [not_or, not_not] at gone
    exact passes ⟨owner, _, ace, after, hasOwner, by rw [hasGroup]; nofun, present,
      list.trans (congrArg some split), generic, nonzero, fun wanted =>
        have holds := (filterToken_holdsSecurity done).mp (security wanted).1
        ⟨holds.1, holds.2, (security wanted).2⟩,
      stop, gone.2, gone.1, lacking, split ▸ held⟩

end Filtered

/-! ### One group -/

def staff : Sid := ⟨1, [0, 0, 0, 0, 0, 5], [32, 545]⟩

/-- `alice` as a member of `staff`, and what the request leaves of the token without that group. -/
def staffToken : Token := aliceToken [⟨seGroupEnabled, staff⟩]
def withoutStaff : Token := aliceToken [⟨seGroupUseForDenyOnly, staff⟩]

/-- Staff is denied the given rights, and everyone who is `alice` gets right `1`. -/
def denyStaff (mask : BitVec 32) : List Ace :=
  [⟨.accessDenied, 0, mask, staff⟩, ⟨.accessAllowed, 0, 1, alice⟩]

theorem filterToken_grants_denyOther :
    (tokenAccessCheck withoutStaff (rootObject (denyStaff 2)) 1 none noMapping).Grants ∧
      (tokenAccessCheck staffToken (rootObject (denyStaff 2)) 1 none noMapping).Grants := by
  have done : filterToken staffToken [] [staff] = some withoutStaff := by decide
  have filtered : (tokenAccessCheck withoutStaff (rootObject (denyStaff 2)) 1 none
      noMapping).Grants := ⟨by decide, by decide⟩
  refine ⟨filtered, (filterToken_grants_iff done (by decide) none).mpr ?_ filtered⟩
  rintro ⟨_, before, ace, after, -, -, -, list, -, -, -, stop, -⟩
  have goes : ∀ ace ∈ denyStaff 2, stops staffToken.has noMapping 1 ace = false := by decide
  rw [goes ace (Option.some.inj list ▸ mem_append_cons_self)] at stop
  nomatch stop

/-- Without the group, `alice` passes the entry that denies right `1` to the group. -/
theorem filterToken_gains :
    filterToken staffToken [] [staff] = some withoutStaff ∧
      (tokenAccessCheck withoutStaff (rootObject (denyStaff 1)) 1 none noMapping).Grants ∧
      ¬(tokenAccessCheck staffToken (rootObject (denyStaff 1)) 1 none noMapping).Grants :=
  ⟨by decide, ⟨by decide, by decide⟩, fun grants => nomatch grants.2⟩

end FreeWindows.Security
