/-
**What an access check grants.**

`token_access_check` keeps the rights granted and denied so far for all bits at once, and leaves
the loop at the first deny entry that meets the desired access, also when the bits it denies have
been granted already. For a desired access without `MAXIMUM_ALLOWED`:

* `daclLoop_current`: a desired bit is granted by the loop if and only if it was before, or an
  allow entry in front of the first such deny entry (`reached`) confers it;
* `accessByDacl_granted`, `accessByDacl_denied`: the desired access is granted exactly when this
  holds of each of its bits, and otherwise nothing is.
-/

import FreeWindows.Token.Model
import FreeWindows.Lib.Bits

namespace FreeWindows.Security

open List

/-- Which SIDs are present, for allow entries and for deny entries. -/
abbrev Presence := Sid → (deny : Bool) → Bool

/-- `token_sid_present`, as what the token has. -/
abbrev Token.has (token : Token) : Presence := tokenSidPresent token

/-- The entry gives its rights to the token. -/
def allows (present : Presence) (ace : Ace) : Bool :=
  ace.flags &&& inheritOnlyAce == 0 && ace.type == .accessAllowed && present ace.sid false

/-- The entry denies its rights to the token. -/
def denies (present : Presence) (ace : Ace) : Bool :=
  ace.flags &&& inheritOnlyAce == 0 && ace.type == .accessDenied && present ace.sid true

theorem allows_iff (present : Presence) (ace : Ace) :
    allows present ace = true ↔ ace.flags &&& inheritOnlyAce = 0 ∧ ace.type = .accessAllowed ∧
      present ace.sid false = true := by
  rw [allows, Bool.and_eq_true, Bool.and_eq_true, beq_iff_eq, beq_iff_eq, and_assoc]

theorem denies_iff (present : Presence) (ace : Ace) :
    denies present ace = true ↔ ace.flags &&& inheritOnlyAce = 0 ∧ ace.type = .accessDenied ∧
      present ace.sid true = true := by
  rw [denies, Bool.and_eq_true, Bool.and_eq_true, beq_iff_eq, beq_iff_eq, and_assoc]

variable {ace : Ace}

section Walk

variable (present : Presence) (mapping : GenericMap) (desired : BitVec 32)

/-- The entry ends the loop: it denies a desired right, or one that has been granted. -/
def stops (ace : Ace) : Bool :=
  denies present ace && desired &&& mapAccess ace.mask mapping != 0

theorem stops_iff (ace : Ace) :
    stops present mapping desired ace = true ↔
      denies present ace = true ∧ desired &&& mapAccess ace.mask mapping ≠ 0 := by
  rw [stops, Bool.and_eq_true, bne_iff_ne]

/-- The entries in front of the one that ends the loop. -/
def reached (dacl : List Ace) : List Ace :=
  dacl.takeWhile fun ace => !stops present mapping desired ace

theorem reached_of_stops (rest : List Ace) (stop : stops present mapping desired ace = true) :
    reached present mapping desired (ace :: rest) = [] := by
  rw [reached, takeWhile_cons, stop]
  rfl

theorem reached_of_next (rest : List Ace) (goes : stops present mapping desired ace = false) :
    reached present mapping desired (ace :: rest) = ace :: reached present mapping desired rest := by
  rw [reached, takeWhile_cons, goes]
  rfl

/-- Nothing behind an entry that stops the loop is reached. -/
theorem reached_sub (before after : List Ace) (stop : stops present mapping desired ace = true) :
    reached present mapping desired (before ++ ace :: after) ⊆ before := by
  induction before with
  | nil => simp [reached_of_stops _ _ _ after stop]
  | cons first before ih =>
    rw [cons_append]
    cases goes : stops present mapping desired first with
    | true => simp [reached_of_stops _ _ _ _ goes]
    | false =>
      rw [reached_of_next _ _ _ _ goes]
      exact cons_subset_cons first ih

/-- The loop reaches all entries, or there is one that stops it. -/
theorem reached_cases (dacl : List Ace) :
    reached present mapping desired dacl = dacl ∨
      ∃ ace after, dacl = reached present mapping desired dacl ++ ace :: after ∧
        stops present mapping desired ace = true := by
  induction dacl with
  | nil => exact .inl rfl
  | cons first rest ih =>
    cases goes : stops present mapping desired first with
    | true => exact .inr ⟨first, rest, by rw [reached_of_stops _ _ _ _ goes, nil_append], goes⟩
    | false =>
      rw [reached_of_next _ _ _ _ goes]
      refine ih.imp (congrArg (first :: ·)) fun ⟨ace, after, split, stop⟩ => ⟨ace, after, ?_, stop⟩
      rw [cons_append, ← split]

/-- An allow entry for the token has the bit. -/
def Confers (aces : List Ace) (bit : Nat) : Prop :=
  ∃ ace ∈ aces, allows present ace ∧ (mapAccess ace.mask mapping).getLsbD bit

theorem Confers.mono {present : Presence} {mapping : GenericMap} {aces aces' : List Ace} {bit : Nat}
    (confers : Confers present mapping aces bit) (sub : aces ⊆ aces') :
    Confers present mapping aces' bit :=
  confers.imp fun _ ⟨member, rest⟩ => ⟨sub member, rest⟩

end Walk

section Loop

variable {token : Token} {mapping : GenericMap} {desired : BitVec 32}
  (plain : desired &&& maximumAllowed = 0)
include plain

/-- What one entry that does not stop the loop does to a desired bit. -/
structure Steps (desired current denied current' denied' : BitVec 32) (given : Nat → Prop) :
    Prop where
  current : ∀ bit, desired.getLsbD bit = true → denied.getLsbD bit = false →
    (current'.getLsbD bit = true ↔ current.getLsbD bit = true ∨ given bit)
  denied : ∀ bit, desired.getLsbD bit = true → denied.getLsbD bit = false →
    denied'.getLsbD bit = false

theorem daclLoop_next (nonzero : desired ≠ 0) (rest : List Ace) (current denied : BitVec 32)
    (goes : stops token.has mapping desired ace = false) :
    ∃ current' denied', daclLoop token mapping desired (ace :: rest) current denied =
        daclLoop token mapping desired rest current' denied' ∧
      Steps desired current denied current' denied' fun bit =>
        allows token.has ace ∧ (mapAccess ace.mask mapping).getLsbD bit := by
  -- an entry that is not an allow entry for the token gives nothing
  have idle : ¬allows token.has ace = true → Steps desired current denied current denied fun bit =>
        allows token.has ace ∧ (mapAccess ace.mask mapping).getLsbD bit := fun none =>
    ⟨fun bit _ _ => by simp only [none, false_and, or_false, Bool.false_eq_true],
      fun bit _ clear => clear⟩
  by_cases effective : ace.flags &&& inheritOnlyAce = 0
  swap
  · refine ⟨current, denied, ?_, idle fun allowed => effective ((allows_iff ..).mp allowed).1⟩
    simp only [daclLoop, if_pos effective]
  simp only [daclLoop, effective, plain, ne_eq, not_true_eq_false, if_false, if_neg nonzero]
  cases type : ace.type with
  | accessDenied =>
    have none : ¬allows token.has ace = true := fun allowed =>
      nomatch type.symm.trans ((allows_iff ..).mp allowed).2.1
    by_cases present : tokenSidPresent token ace.sid true
    · -- the entry meets no desired bit, or it would stop the loop
      have misses : desired &&& mapAccess ace.mask mapping = 0 := by
        by_contra meets
        exact Bool.eq_false_iff.mp goes
          ((stops_iff ..).mpr ⟨(denies_iff ..).mpr ⟨effective, type, present⟩, meets⟩)
      refine ⟨current, _, by simp only [present, misses, not_true_eq_false, if_true, if_false]; rfl,
        (idle none).current, fun bit wanted clear => ?_⟩
      rw [BitVec.getLsbD_or, BitVec.getLsbD_and, clear,
        (Lib.and_eq_zero_iff_bits _ _).mp misses bit wanted]
      rfl
    · exact ⟨current, denied, by simp only [if_neg present], idle none⟩
  | accessAllowed =>
    by_cases present : tokenSidPresent token ace.sid false
    · have given : allows token.has ace = true := (allows_iff ..).mpr ⟨effective, type, present⟩
      refine ⟨_, denied, by simp only [present, if_true]; rfl, ?_, fun bit _ clear => clear⟩
      intro bit wanted clear
      rw [BitVec.getLsbD_or, BitVec.getLsbD_and, BitVec.getLsbD_not, clear, given]
      simp only [BitVec.lt_of_getLsbD wanted, decide_true, Bool.not_false, Bool.and_true,
        Bool.or_eq_true, true_and]
    · exact ⟨current, denied, by simp only [if_neg present],
        idle fun allowed => present ((allows_iff ..).mp allowed).2.2⟩
  | systemAudit | systemAlarm | systemMandatoryLabel =>
    exact ⟨current, denied, rfl,
      idle fun allowed => nomatch type.symm.trans ((allows_iff ..).mp allowed).2.1⟩

/-- **The loop**: a desired bit is granted at its end if and only if it was before, or an allow
entry confers it in front of the entry that stops the loop. -/
theorem daclLoop_current (nonzero : desired ≠ 0) (dacl : List Ace) (current denied : BitVec 32)
    (clear : ∀ bit, desired.getLsbD bit = true → denied.getLsbD bit = false) {bit : Nat}
    (wanted : desired.getLsbD bit = true) :
    (daclLoop token mapping desired dacl current denied).1.getLsbD bit = true ↔
      current.getLsbD bit = true ∨
        Confers token.has mapping (reached token.has mapping desired dacl) bit := by
  induction dacl generalizing current denied with
  | nil => simp [daclLoop, reached, Confers]
  | cons ace rest ih =>
    cases stop : stops token.has mapping desired ace with
    | true =>
      obtain ⟨denies, meets⟩ := (stops_iff ..).mp stop
      obtain ⟨effective, type, present⟩ := (denies_iff ..).mp denies
      simp only [daclLoop, effective, type, present, plain, ne_eq, not_true_eq_false, if_false, if_true,
        if_pos meets, reached_of_stops _ _ _ rest stop]
      simp [Confers]
    | false =>
      obtain ⟨current', denied', run, steps⟩ := daclLoop_next plain nonzero rest current denied stop
      rw [run, ih current' denied' fun bit wanted => steps.denied bit wanted (clear bit wanted),
        steps.current bit wanted (clear bit wanted), reached_of_next _ _ _ rest stop, or_assoc]
      simp only [Confers, List.mem_cons, exists_eq_or_imp]

end Loop

/-! ### The whole check -/

/-- The rights that the owner of an object has. -/
def ownerRights (present : Presence) (owner : Sid) : BitVec 32 :=
  if present owner false then standardRightsRequired ||| synchronize else 0

section Check

variable (present : Presence) (token : Token) (owner : Sid) (dacl : List Ace) (mapping : GenericMap)
  (desired current : BitVec 32)

/-- Every desired right is there at the start, is the owner's, or is conferred by the entries. -/
def Held (aces : List Ace) : Prop :=
  ∀ bit, desired.getLsbD bit = true →
    (current ||| ownerRights present owner).getLsbD bit = true ∨ Confers present mapping aces bit

theorem Held.mono {present : Presence} {owner : Sid} {mapping : GenericMap}
    {desired current : BitVec 32} {aces aces' : List Ace}
    (held : Held present owner mapping desired current aces) (sub : aces ⊆ aces') :
    Held present owner mapping desired current aces' :=
  fun bit wanted => (held bit wanted).imp_right fun confers => confers.mono sub

/-- Owning all that is desired, and no more, only ends the check earlier. -/
theorem accessByDacl_eq (privCount : Option Nat) (privs : Option LuidAttr) :
    accessByDacl token owner dacl mapping desired current privCount privs =
      if tokenSidPresent token owner false ∧ desired = current ||| ownerRights token.has owner then
        ⟨.success, desired, some .success, privCount, privs⟩
      else accessDone desired (daclLoop token mapping desired dacl
        (current ||| ownerRights token.has owner) 0) privCount privs := by
  unfold accessByDacl ownerRights
  by_cases present : tokenSidPresent token owner false
  · simp only [present, if_true, true_and]
    split
    · next same => rw [← same]
    · rfl
  · have unchanged : current ||| (0 : BitVec 32) = current := BitVec.or_zero
    simp only [present, if_false, false_and, Bool.false_eq_true, unchanged]

variable {token owner dacl mapping desired current}

theorem daclLoop_held (plain : desired &&& maximumAllowed = 0) (nonzero : desired ≠ 0) :
    (daclLoop token mapping desired dacl (current ||| ownerRights token.has owner) 0).1 &&& desired =
        desired ↔
      Held token.has owner mapping desired current (reached token.has mapping desired dacl) := by
  rw [Lib.and_eq_right_iff_bits]
  exact forall₂_congr fun bit wanted =>
    daclLoop_current plain nonzero dacl _ 0 (fun _ _ => BitVec.getLsbD_zero) wanted

section Plain

variable (plain : desired &&& maximumAllowed = 0)
include plain

/-- **The desired access is granted** when all of its bits are held. -/
theorem accessByDacl_granted (nonzero : desired ≠ 0)
    (held : Held token.has owner mapping desired current (reached token.has mapping desired dacl))
    (privCount : Option Nat) (privs : Option LuidAttr) :
    accessByDacl token owner dacl mapping desired current privCount privs =
      ⟨.success, desired, some .success, privCount, privs⟩ := by
  rw [accessByDacl_eq]
  split
  · rfl
  · simp only [accessDone, plain, ne_eq, not_true_eq_false, if_false,
      (daclLoop_held plain nonzero).mpr held, if_true, nonzero]

/-- **Nothing is granted** otherwise. -/
theorem accessByDacl_denied (nonzero : desired ≠ 0)
    (lacking : ¬Held token.has owner mapping desired current (reached token.has mapping desired dacl))
    (privCount : Option Nat) (privs : Option LuidAttr) :
    accessByDacl token owner dacl mapping desired current privCount privs =
      ⟨.success, 0, some .accessDenied, privCount, privs⟩ := by
  rw [accessByDacl_eq, if_neg fun ⟨_, same⟩ => lacking fun bit wanted => .inl (same ▸ wanted)]
  simp only [accessDone, plain, ne_eq, not_true_eq_false, if_false,
    (daclLoop_held plain nonzero).not.mpr lacking, if_true]

/-- Whether the DACL and ownership grant the desired access, which must not be empty. -/
theorem accessByDacl_grants_iff (privCount : Option Nat) (privs : Option LuidAttr) :
    (accessByDacl token owner dacl mapping desired current privCount privs).Grants ↔
      desired ≠ 0 ∧
        Held token.has owner mapping desired current (reached token.has mapping desired dacl) := by
  by_cases nonzero : desired = 0
  · refine iff_of_false (fun grants => ?_) fun both => both.1 nonzero
    subst nonzero
    rw [accessByDacl_eq] at grants
    split at grants
    · -- what is owned is not empty
      next own =>
        have set := congrArg (BitVec.getLsbD · 20) own.2
        simp [ownerRights, own.1, standardRightsRequired, synchronize] at set
    · simp [accessDone, maximumAllowed, Outcome.Grants] at grants
  · rw [and_iff_right nonzero]
    by_cases held : Held token.has owner mapping desired current
        (reached token.has mapping desired dacl)
    · rw [accessByDacl_granted plain nonzero held]
      exact iff_of_true ⟨rfl, rfl⟩ held
    · rw [accessByDacl_denied plain nonzero held]
      exact iff_of_false (fun grants => nomatch grants.2) held

end Plain

/-- What the check starts with when `ACCESS_SYSTEM_SECURITY` is desired and held. -/
def securityRights (desired : BitVec 32) : BitVec 32 :=
  if desired &&& accessSystemSecurity ≠ 0 then accessSystemSecurity else 0

/-- The privilege for `ACCESS_SYSTEM_SECURITY` is enabled. -/
def holdsSecurity (token : Token) : Bool :=
  tokenCheckPrivileges token true [⟨seSecurityPrivilege, 0⟩]

variable {sd : SecurityDescriptor} {group : Sid}

theorem tokenAccessCheck_incomplete (generic : desired &&& genericBits = 0)
    (incomplete : sd.owner = none ∨ sd.group = none) (privCount : Option Nat) :
    tokenAccessCheck token sd desired privCount mapping =
      ⟨.invalidSecurityDescr, 0, none, privCount.map fun _ => 0, none⟩ := by
  rcases incomplete with missing | missing
  · simp only [tokenAccessCheck, generic, missing, ne_eq, not_true_eq_false, if_false]
  · cases owner : sd.owner <;>
      simp only [tokenAccessCheck, generic, owner, missing, ne_eq, not_true_eq_false, if_false]

theorem tokenAccessCheck_open (generic : desired &&& genericBits = 0) (hasOwner : sd.owner = some owner)
    (hasGroup : sd.group = some group) (isOpen : ¬(sd.daclPresent = true ∧ sd.dacl ≠ none))
    (privCount : Option Nat) :
    tokenAccessCheck token sd desired privCount mapping =
      ⟨.success, if desired &&& maximumAllowed ≠ 0 then mapping.all else desired, some .success,
        privCount.map fun _ => 0, none⟩ := by
  rw [tokenAccessCheck, if_neg (not_not.mpr generic), hasOwner, hasGroup]
  cases present : sd.daclPresent with
  | false => rfl
  | true =>
    cases list : sd.dacl with
    | none => rfl
    | some dacl => exact absurd ⟨present, by rw [list]; nofun⟩ isOpen

/-- With an owner, a group and a DACL: the access is granted when the privilege is there that the
desired access needs, with room to report it, and all desired bits are held. -/
theorem grants_dacl_iff (plain : desired &&& maximumAllowed = 0) (generic : desired &&& genericBits = 0)
    (hasOwner : sd.owner = some owner) (hasGroup : sd.group = some group)
    (present : sd.daclPresent = true) (list : sd.dacl = some dacl) (privCount : Option Nat) :
    (tokenAccessCheck token sd desired privCount mapping).Grants ↔
      desired ≠ 0 ∧
        (desired &&& accessSystemSecurity ≠ 0 → holdsSecurity token ∧ privCount ≠ some 0) ∧
        Held token.has owner mapping desired (securityRights desired)
          (reached token.has mapping desired dacl) := by
  have start : ∀ current count privs, current = securityRights desired →
      ((accessByDacl token owner dacl mapping desired current count privs).Grants ↔
        desired ≠ 0 ∧ Held token.has owner mapping desired (securityRights desired)
          (reached token.has mapping desired dacl)) := by
    rintro current count privs rfl
    exact accessByDacl_grants_iff plain count privs
  by_cases security : desired &&& accessSystemSecurity = 0
  · have current : 0 = securityRights desired := (if_neg (not_not.mpr security)).symm
    simp only [tokenAccessCheck, generic, security, hasOwner, hasGroup, present, list, ne_eq,
      not_true_eq_false, if_false, start _ _ _ current, false_implies, true_and]
  · have current : accessSystemSecurity = securityRights desired := (if_pos security).symm
    have nonzero : desired ≠ 0 := fun zero => security (by rw [zero]; decide)
    simp only [tokenAccessCheck, generic, security, hasOwner, hasGroup, present, list, ne_eq,
      not_true_eq_false, not_false_eq_true, if_false, if_true, true_implies, nonzero, true_and]
    by_cases holds : tokenCheckPrivileges token true [⟨seSecurityPrivilege, 0⟩] = true
    · rw [if_pos holds]
      by_cases room : privCount = some 0
      · rw [if_pos room]
        exact iff_of_false (fun grants => nomatch grants.1) fun both => both.1.2 room
      · rw [if_neg room, and_iff_right (⟨holds, room⟩ : holdsSecurity token = true ∧ _)]
        split
        · -- nothing else is desired
          next all => exact iff_of_true ⟨rfl, rfl⟩ fun bit wanted => .inl (by
            rw [BitVec.getLsbD_or, ← current, ← all, wanted, Bool.true_or])
        · rw [start _ _ _ current, and_iff_right nonzero]
    · rw [if_neg holds]
      exact iff_of_false (fun grants => nomatch grants.2) fun both => holds both.1.1

end Check

/-! ### A user and an object -/

def alice : Sid := ⟨1, [0, 0, 0, 0, 0, 5], [21, 1000]⟩
def root : Sid := ⟨1, [0, 0, 0, 0, 0, 5], [18]⟩

/-- A token of `alice`, who is in the given groups. -/
def aliceToken (groups : List Group) : Token := ⟨[], groups, alice, some 0, true, 0, -1, 0⟩

/-- A descriptor of an object of `root` with the given list. -/
def rootObject (dacl : List Ace) : SecurityDescriptor := ⟨some root, some root, true, some dacl⟩

def noMapping : GenericMap := ⟨0, 0, 0, 0⟩

end FreeWindows.Security
