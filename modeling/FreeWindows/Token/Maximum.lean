/-
**The maximum allowed access.**

Asked for `MAXIMUM_ALLOWED`, `token_access_check` collects what all allow entries confer and takes off what
any deny entry denies, in whatever order they stand (`daclLoop_maximum`). Asked for one right, it stops at
the first entry that denies it. **`maximum_exact_iff`**: the two agree, unless a right is denied behind the
entry, or the ownership, that gives it, or the entries give `ACCESS_SYSTEM_SECURITY`, for which a privilege
is checked; without a DACL the maximum is `GENERIC_ALL`, though every right is given.
-/

import FreeWindows.Token.FirstMatch

namespace FreeWindows.Security

variable {token : Token} {mapping : GenericMap} {owner : Sid} {dacl : List Ace}

variable (token mapping) in
/-- A deny entry for the token has the bit. -/
def Refuses (aces : List Ace) (bit : Nat) : Prop :=
  ∃ ace ∈ aces, denies token.has ace ∧ (mapAccess ace.mask mapping).getLsbD bit

theorem daclLoop_maximum_cons (ace : Ace) (rest : List Ace) (current denied : BitVec 32) :
    daclLoop token mapping maximumAllowed (ace :: rest) current denied =
      daclLoop token mapping maximumAllowed rest
        (if allows token.has ace then current ||| mapAccess ace.mask mapping else current)
        (if denies token.has ace then denied ||| mapAccess ace.mask mapping else denied) := by
  have nonzero : maximumAllowed ≠ 0#32 := by decide
  by_cases effective : ace.flags &&& inheritOnlyAce = 0#8
  swap
  · simp [daclLoop, allows, denies, effective]
  cases type : ace.type with
  | accessDenied =>
    by_cases present : tokenSidPresent token ace.sid true <;>
      simp [daclLoop, allows, denies, effective, type, present, nonzero]
  | accessAllowed =>
    by_cases present : tokenSidPresent token ace.sid false <;>
      simp [daclLoop, allows, denies, effective, type, present, nonzero]
  | systemAudit | systemAlarm | systemMandatoryLabel =>
    simp [daclLoop, allows, denies, effective, type, nonzero]

/-- **All entries**: what any of them allows, and what any of them denies. -/
theorem daclLoop_maximum (dacl : List Ace) (current denied : BitVec 32) (bit : Nat) :
    ((daclLoop token mapping maximumAllowed dacl current denied).1.getLsbD bit = true ↔
        current.getLsbD bit = true ∨ Confers token.has mapping dacl bit) ∧
      ((daclLoop token mapping maximumAllowed dacl current denied).2.getLsbD bit = true ↔
        denied.getLsbD bit = true ∨ Refuses token mapping dacl bit) := by
  induction dacl generalizing current denied with
  | nil => simp [daclLoop, Confers, Refuses]
  | cons ace rest ih =>
    rw [daclLoop_maximum_cons, (ih _ _).1, (ih _ _).2]
    simp only [Confers, Refuses, List.mem_cons, exists_eq_or_imp]
    constructor
    · split <;> simp_all [or_assoc]
    · split <;> simp_all [or_assoc]

theorem twoPow_bit_iff {bit : Nat} (small : bit < 28) (other : Nat) :
    (BitVec.twoPow 32 bit).getLsbD other = true ↔ other = bit := by
  simp only [BitVec.getLsbD_twoPow, Bool.and_eq_true, decide_eq_true_eq]
  omega

/-- The rights that can be asked for: neither generic, nor `MAXIMUM_ALLOWED` itself, at bit 25. Bit 24 is
`ACCESS_SYSTEM_SECURITY`. -/
theorem twoPow_plain : ∀ bit < 28, bit ≠ 25 →
    BitVec.twoPow 32 bit ≠ 0 ∧ BitVec.twoPow 32 bit &&& maximumAllowed = 0 ∧
      BitVec.twoPow 32 bit &&& genericBits = 0 ∧
      (bit ≠ 24 → BitVec.twoPow 32 bit &&& accessSystemSecurity = 0) := by
  decide

/-- A right that no entry denies ends no check for it. -/
theorem reached_of_allowed {bit : Nat} (small : bit < 28) (allowed : ¬Refuses token mapping dacl bit) :
    reached token.has mapping (.twoPow 32 bit) dacl = dacl := by
  rcases reached_cases token.has mapping (.twoPow 32 bit) dacl with all | ⟨ace, after, split, stop⟩
  · exact all
  · obtain ⟨denied, meets⟩ := (stops_iff ..).mp stop
    refine absurd ((Lib.and_eq_zero_iff_bits ..).mpr fun other set => ?_) meets
    rw [(twoPow_bit_iff small other).mp set, ← Bool.not_eq_true]
    exact fun has => allowed ⟨ace, split ▸ List.mem_append_cons_self, denied, has⟩

variable (token mapping owner dacl) in
/-- The maximum has the right if it is granted alone: `ACCESS_SYSTEM_SECURITY` if the entries say the same
as the privilege, and any other right if it is not denied behind what gives it. -/
def Agrees (privCount : Option Nat) (bit : Nat) : Prop :=
  if bit = 24 then
    (Confers token.has mapping dacl bit ∧ ¬Refuses token mapping dacl bit ↔
      holdsSecurity token = true ∧ privCount ≠ some 0)
  else
    Refuses token mapping dacl bit → ¬((ownerRights token.has owner).getLsbD bit = true ∨
      Confers token.has mapping (reached token.has mapping (.twoPow 32 bit) dacl) bit)

section Bits

variable {sd : SecurityDescriptor} {group : Sid} (privCount : Option Nat) {bit : Nat}
  (small : bit < 28) (hasOwner : sd.owner = some owner) (hasGroup : sd.group = some group)
  (present : sd.daclPresent = true) (list : sd.dacl = some dacl)

include small hasOwner hasGroup present list

theorem maximum_granted :
    (tokenAccessCheck token sd maximumAllowed privCount mapping).grantedAccess.getLsbD bit = true ↔
      ((ownerRights token.has owner).getLsbD bit = true ∨ Confers token.has mapping dacl bit) ∧
        ¬Refuses token mapping dacl bit := by
  have notOwned : maximumAllowed ≠ 0 ||| ownerRights token.has owner := by
    unfold ownerRights
    split <;> decide
  obtain ⟨allowed, denied⟩ := @daclLoop_maximum token mapping dacl
    (0 ||| ownerRights token.has owner) 0 bit
  rw [tokenAccessCheck_dacl (by decide) (by decide) hasOwner hasGroup present list, accessByDacl_eq,
    if_neg fun both => notOwned both.2, accessDone]
  rw [if_pos (by decide), BitVec.getLsbD_and, BitVec.getLsbD_not, decide_eq_true (by omega),
    Bool.true_and, Bool.and_eq_true, Bool.not_eq_true', ← Bool.not_eq_true, allowed, denied]
  simp

theorem single_granted (other : bit ≠ 25) :
    (tokenAccessCheck token sd (.twoPow 32 bit) privCount mapping).Grants ↔
      if bit = 24 then holdsSecurity token = true ∧ privCount ≠ some 0
      else (ownerRights token.has owner).getLsbD bit = true ∨
        Confers token.has mapping (reached token.has mapping (.twoPow 32 bit) dacl) bit := by
  obtain ⟨nonzero, plain, generic, security⟩ := twoPow_plain bit small other
  rw [grants_dacl_iff plain generic hasOwner hasGroup present list, and_iff_right nonzero]
  simp only [Held, twoPow_bit_iff small, forall_eq, BitVec.getLsbD_or, securityRights]
  by_cases special : bit = 24
  · subst special
    rw [imp_iff_right (by decide), if_pos (by decide), if_pos rfl]
    exact and_iff_left (.inl rfl)
  · rw [security special, if_neg special]
    simp

theorem maximum_agrees_iff (other : bit ≠ 25) :
    ((tokenAccessCheck token sd maximumAllowed privCount mapping).grantedAccess.getLsbD bit = true ↔
      (tokenAccessCheck token sd (.twoPow 32 bit) privCount mapping).Grants) ↔
      Agrees token mapping owner dacl privCount bit := by
  rw [maximum_granted privCount small hasOwner hasGroup present list,
    single_granted privCount small hasOwner hasGroup present list other, Agrees]
  split_ifs with special
  · have notOwned : ¬(ownerRights token.has owner).getLsbD bit = true := by
      rw [special]
      unfold ownerRights
      split <;> decide
    rw [or_iff_right notOwned]
  · refine ⟨fun same refused single => (same.mpr single).2 refused, fun ordered => ⟨?_, fun single => ?_⟩⟩
    · rintro ⟨allowed, clear⟩
      rwa [reached_of_allowed small clear]
    · exact ⟨single.imp_right fun confers => confers.mono (List.takeWhile_sublist _).subset,
        fun refused => ordered refused single⟩

end Bits

/-- **The maximum, bit by bit.** The rights granted for `MAXIMUM_ALLOWED` are those that are granted one by
one, if and only if the entries of the DACL agree on each of them or, where there is no DACL, the mapping
of `GENERIC_ALL` has all of them. -/
theorem maximum_exact_iff (token : Token) (sd : SecurityDescriptor) (mapping : GenericMap)
    (privCount : Option Nat) :
    (∀ bit < 28, bit ≠ 25 →
      ((tokenAccessCheck token sd maximumAllowed privCount mapping).grantedAccess.getLsbD bit = true ↔
        (tokenAccessCheck token sd (.twoPow 32 bit) privCount mapping).Grants)) ↔
      ∀ bit < 28, bit ≠ 25 → ∀ owner, sd.owner = some owner → sd.group ≠ none →
        (∀ dacl, sd.daclPresent = true → sd.dacl = some dacl →
          Agrees token mapping owner dacl privCount bit) ∧
        (¬(sd.daclPresent = true ∧ sd.dacl ≠ none) → mapping.all.getLsbD bit = true) := by
  refine forall₃_congr fun bit small other => ?_
  obtain ⟨-, plain, generic, -⟩ := twoPow_plain bit small other
  by_cases complete : sd.owner = none ∨ sd.group = none
  · rw [tokenAccessCheck_incomplete (by decide) complete, tokenAccessCheck_incomplete generic complete]
    refine iff_of_true (iff_of_false (by simp) nofun) fun owner hasOwner hasGroup => ?_
    simp [hasOwner, hasGroup] at complete
  rw [not_or] at complete
  obtain ⟨owner, hasOwner⟩ := Option.ne_none_iff_exists'.mp complete.1
  obtain ⟨group, hasGroup⟩ := Option.ne_none_iff_exists'.mp complete.2
  simp only [hasOwner, Option.some.injEq, forall_eq', imp_iff_right complete.2]
  by_cases isOpen : ¬(sd.daclPresent = true ∧ sd.dacl ≠ none)
  · rw [tokenAccessCheck_open (by decide) hasOwner hasGroup isOpen, if_pos (by decide),
      tokenAccessCheck_open generic hasOwner hasGroup isOpen, imp_iff_right isOpen]
    refine (iff_true_right ⟨rfl, rfl⟩).trans (and_iff_right fun dacl present list => ?_).symm
    exact absurd ⟨present, by simp [list]⟩ isOpen
  · obtain ⟨present, listed⟩ := not_not.mp isOpen
    obtain ⟨dacl, list⟩ := Option.ne_none_iff_exists'.mp listed
    rw [maximum_agrees_iff privCount small hasOwner hasGroup present list other]
    simp [present, list]

/-- The right `1` is given, and denied behind that: it is granted alone, but is not in the maximum. -/
theorem maximum_fails :
    (tokenAccessCheck (aliceToken []) (rootObject denyAgain) (.twoPow 32 0) none noMapping).Grants ∧
      (tokenAccessCheck (aliceToken []) (rootObject denyAgain) maximumAllowed none
        noMapping).grantedAccess = 2 := by
  exact ⟨⟨by decide, by decide⟩, by decide⟩

end FreeWindows.Security
