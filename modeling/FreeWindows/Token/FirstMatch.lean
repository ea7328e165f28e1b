/-
**Access checks against the first-match rule.**

The rule for one bit: ownership confers it, or the first entry of the DACL that applies to the
token and has the bit is an allow entry. `token_access_check` grants no more than the rule
(`granted_of_held`), but it can grant less: a deny entry that meets the desired access ends the
loop also when the rule has decided all of its desired bits before, and the bits that the rule
decides later are lost. `tokenAccessCheck_firstMatch_iff` says that this is the only difference.
-/

import FreeWindows.Token.Grant

namespace FreeWindows.Security

open Option

section Rule

variable (token : Token) (mapping : GenericMap)

/-- The entry applies to the token and has the bit. -/
def decides (bit : Nat) (ace : Ace) : Bool :=
  (allows token.has ace || denies token.has ace) && (mapAccess ace.mask mapping).getLsbD bit

/-- **The rule for one bit.** -/
def RuleGrants (owner : Option Sid) (dacl : List Ace) (bit : Nat) : Prop :=
  (owner.elim 0 (ownerRights token.has)).getLsbD bit = true ∨
    ∃ ace, dacl.find? (decides token mapping bit) = some ace ∧ ace.type = .accessAllowed

/-- The rule grants every desired bit. -/
def RuleGrantsAll (owner : Option Sid) (dacl : List Ace) (desired : BitVec 32) : Prop :=
  ∀ bit, desired.getLsbD bit = true → RuleGrants token mapping owner dacl bit

/-- The check follows the rule: the desired access is granted, and exactly that, when the rule
grants all of its bits, and otherwise nothing is granted and the access is reported as denied. -/
structure FollowsRule (owner : Option Sid) (dacl : List Ace) (desired : BitVec 32)
    (outcome : Outcome) : Prop where
  granted : RuleGrantsAll token mapping owner dacl desired →
    outcome.Grants ∧ outcome.grantedAccess = desired
  denied : ¬RuleGrantsAll token mapping owner dacl desired →
    outcome.result = .success ∧ outcome.status = some .accessDenied ∧ outcome.grantedAccess = 0

end Rule

section Check

variable {token : Token} {mapping : GenericMap} {owner : Sid} {dacl : List Ace}
  {desired : BitVec 32}

theorem decides_iff (bit : Nat) (ace : Ace) :
    decides token mapping bit ace = true ↔
      (allows token.has ace = true ∨ denies token.has ace = true) ∧
        (mapAccess ace.mask mapping).getLsbD bit = true := by
  rw [decides, Bool.and_eq_true, Bool.or_eq_true]

/-- **The check grants no more than the rule.** -/
theorem granted_of_held
    (held : Held token.has owner mapping desired 0 (reached token.has mapping desired dacl)) :
    RuleGrantsAll token mapping (some owner) dacl desired := by
  intro bit wanted
  refine (held bit wanted).imp (fun own => ?_) fun ⟨ace, member, allowed, has⟩ => ?_
  · rwa [show (0 : BitVec 32) ||| ownerRights token.has owner = ownerRights token.has owner from
      BitVec.zero_or] at own
  -- the first entry that decides the bit is reached, so it does not deny it
  have first : ((reached token.has mapping desired dacl).find? (decides token mapping bit)).isSome :=
    List.find?_isSome.mpr ⟨ace, member, (decides_iff bit ace).mpr ⟨.inl allowed, has⟩⟩
  obtain ⟨decider, found⟩ := isSome_iff_exists.mp first
  refine ⟨decider, (List.takeWhile_prefix _).find?_eq_some found, ?_⟩
  obtain ⟨applies, bitSet⟩ := (decides_iff bit decider).mp (List.find?_some found)
  rcases applies with allowed | denied
  · exact ((allows_iff ..).mp allowed).2.1
  · have goes := List.mem_takeWhile_imp (List.mem_of_find?_eq_some found)
    have meets : desired &&& mapAccess decider.mask mapping ≠ 0 := fun misses =>
      Bool.eq_false_iff.mp ((Lib.and_eq_zero_iff_bits ..).mp misses bit wanted) bitSet
    rw [(stops_iff ..).mpr ⟨denied, meets⟩] at goes
    nomatch goes

variable (token mapping owner dacl desired) in
/-- The rule grants every desired bit, but a deny entry stops the check in front of an entry that
is needed for it. -/
def LosesBit : Prop :=
  RuleGrantsAll token mapping (some owner) dacl desired ∧
    ∃ before ace after, dacl = before ++ ace :: after ∧ stops token.has mapping desired ace = true ∧
      ¬Held token.has owner mapping desired 0 before

/-- What the rule grants is granted by the check, unless a bit is lost. -/
theorem held_of_granted (granted : RuleGrantsAll token mapping (some owner) dacl desired)
    (keeps : ¬LosesBit token mapping owner dacl desired) :
    Held token.has owner mapping desired 0 (reached token.has mapping desired dacl) := by
  rcases reached_cases token.has mapping desired dacl with all | ⟨ace, after, split, stop⟩
  · -- no entry stops the loop, so the deciding entries are all reached
    intro bit wanted
    rw [all]
    refine (granted bit wanted).imp (fun own => ?_) fun ⟨ace, found, type⟩ => ?_
    · rwa [show (0 : BitVec 32) ||| ownerRights token.has owner = ownerRights token.has owner from
        BitVec.zero_or]
    · obtain ⟨applies, has⟩ := (decides_iff bit ace).mp (List.find?_some found)
      refine ⟨ace, List.mem_of_find?_eq_some found, applies.resolve_right fun denied => ?_, has⟩
      nomatch type.symm.trans ((denies_iff ..).mp denied).2.1
  · by_contra lacking
    exact keeps ⟨granted, _, ace, after, split, stop, lacking⟩

variable {sd : SecurityDescriptor}

/-- With an owner and a group, the check comes down to ownership and the DACL. -/
theorem tokenAccessCheck_dacl {group : Sid} (generic : desired &&& genericBits = 0)
    (security : desired &&& accessSystemSecurity = 0) (hasOwner : sd.owner = some owner)
    (hasGroup : sd.group = some group) (present : sd.daclPresent = true)
    (list : sd.dacl = some dacl) (privCount : Option Nat) :
    tokenAccessCheck token sd desired privCount mapping =
      accessByDacl token owner dacl mapping desired 0 (privCount.map fun _ => 0) none := by
  simp only [tokenAccessCheck, generic, security, hasOwner, hasGroup, present, list, ne_eq,
    not_true_eq_false, if_false]

theorem FollowsRule.result {outcome : Outcome} {owner : Option Sid}
    (follows : FollowsRule token mapping owner dacl desired outcome) : outcome.result = .success := by
  by_cases granted : RuleGrantsAll token mapping owner dacl desired
  · exact (follows.granted granted).1.1
  · exact (follows.denied granted).1

/-- **The check and the rule.** For a desired access of specific and standard rights, the check
follows the first-match rule if and only if the descriptor has an owner and a group and no bit is
lost behind a deny entry. -/
theorem tokenAccessCheck_firstMatch_iff (nonzero : desired ≠ 0) (generic : desired &&& genericBits = 0)
    (plain : desired &&& maximumAllowed = 0) (security : desired &&& accessSystemSecurity = 0)
    (present : sd.daclPresent = true) (list : sd.dacl = some dacl) (privCount : Option Nat) :
    FollowsRule token mapping sd.owner dacl desired
        (tokenAccessCheck token sd desired privCount mapping) ↔
      sd.group ≠ none ∧ ∃ owner, sd.owner = some owner ∧
        ¬LosesBit token mapping owner dacl desired := by
  constructor
  · intro follows
    have complete : ¬(sd.owner = none ∨ sd.group = none) := fun incomplete =>
      nomatch tokenAccessCheck_incomplete generic incomplete privCount ▸ follows.result
    rw [not_or] at complete
    obtain ⟨owner, hasOwner⟩ := ne_none_iff_exists'.mp complete.1
    obtain ⟨group, hasGroup⟩ := ne_none_iff_exists'.mp complete.2
    refine ⟨complete.2, owner, hasOwner, ?_⟩
    rintro ⟨granted, before, ace, after, split, stop, lacking⟩
    -- the rule grants the access, but the bits held in front of the deny entry do not suffice
    have denied := accessByDacl_denied plain nonzero (fun held => lacking (held.mono
      (split ▸ reached_sub token.has mapping desired before after stop))) (privCount.map fun _ => 0) none
    rw [tokenAccessCheck_dacl generic security hasOwner hasGroup present list, denied,
      hasOwner] at follows
    nomatch (follows.granted granted).1.2
  · rintro ⟨hasGroup, owner, hasOwner, keeps⟩
    obtain ⟨group, hasGroup⟩ := ne_none_iff_exists'.mp hasGroup
    rw [tokenAccessCheck_dacl generic security hasOwner hasGroup present list, hasOwner]
    by_cases held : Held token.has owner mapping desired 0 (reached token.has mapping desired dacl)
    · rw [accessByDacl_granted plain nonzero held]
      exact ⟨fun _ => ⟨⟨rfl, rfl⟩, rfl⟩, fun refused => absurd (granted_of_held held) refused⟩
    · rw [accessByDacl_denied plain nonzero held]
      exact ⟨fun granted => absurd (held_of_granted granted keeps) held, fun _ => ⟨rfl, rfl, rfl⟩⟩

end Check

/-! ### Two lists for one user -/

/-- The entry in front denies a right that is not asked for. -/
def denyOther : List Ace := [⟨.accessDenied, 0, 2, alice⟩, ⟨.accessAllowed, 0, 3, alice⟩]

/-- Rights `1` and `2` are given, the first of them in front of an entry that denies it. -/
def denyAgain : List Ace :=
  [⟨.accessAllowed, 0, 1, alice⟩, ⟨.accessDenied, 0, 1, alice⟩, ⟨.accessAllowed, 0, 2, alice⟩]

theorem tokenAccessCheck_firstMatch_denyOther :
    FollowsRule (aliceToken []) noMapping (rootObject denyOther).owner denyOther 1
      (tokenAccessCheck (aliceToken []) (rootObject denyOther) 1 none noMapping) := by
  refine (tokenAccessCheck_firstMatch_iff (by decide) (by decide) (by decide) (by decide) rfl rfl
    none).mpr ⟨by decide, root, rfl, ?_⟩
  rintro ⟨-, before, ace, after, split, stop, -⟩
  have goes : ∀ ace ∈ denyOther, stops (aliceToken []).has noMapping 1 ace = false := by decide
  rw [goes ace (split ▸ List.mem_append_cons_self)] at stop
  nomatch stop

/-- The rule grants both rights; asked for both, the check grants none. -/
theorem firstMatch_fails :
    RuleGrantsAll (aliceToken []) noMapping (rootObject denyAgain).owner denyAgain 3 ∧
      ¬FollowsRule (aliceToken []) noMapping (rootObject denyAgain).owner denyAgain 3
        (tokenAccessCheck (aliceToken []) (rootObject denyAgain) 3 none noMapping) := by
  have granted : RuleGrantsAll (aliceToken []) noMapping (rootObject denyAgain).owner denyAgain 3 := by
    intro bit wanted
    rcases bit with _ | _ | bit
    · exact .inr ⟨⟨.accessAllowed, 0, 1, alice⟩, by decide, rfl⟩
    · exact .inr ⟨⟨.accessAllowed, 0, 2, alice⟩, by decide, rfl⟩
    · simp [BitVec.getLsbD_ofNat, Nat.testBit_succ] at wanted
  have denied : (tokenAccessCheck (aliceToken []) (rootObject denyAgain) 3 none noMapping).status =
      some .accessDenied := by decide
  exact ⟨granted, fun follows => nomatch denied.symm.trans (follows.granted granted).1.2⟩

end FreeWindows.Security
