/-
**Setting the security descriptor of an object.**

`set_sd_defaults_from_token` of `server/object.c` puts the descriptor of an object together from the
one that a client gives, the one that the object has, and a token. Each of the four components has
its own chain of fallbacks; the control bits are those of the given descriptor.

So a component that was not to be set may change all the same: one that the object does not have is
taken from the token, or becomes present with the control bits. `components_kept_iff` says when all
of them stay as they were.

A component is the list of its bytes, which is empty for a component that is not there.
-/

import FreeWindows.Token.DefaultDacl

namespace FreeWindows.Security

open Option

/-! ### Labels -/

def aclRevision : UInt8 := 2

def systemMandatoryLabelAceType : UInt8 := 0x11

/-- The bytes of the entries of a list whose types are as asked for. -/
def selectAces (wanted : UInt8 → Bool) (acl : List UInt8) : List (List UInt8) :=
  let mem := bufferMemory acl fun _ => 0
  ((aclAces mem 0).filter fun ace => wanted (aceType mem ace)).map fun ace =>
    bytesAt mem ace (aceSize mem ace)

/-- The entries of the new list of `replace_security_labels`: those of the old one that are no labels,
and the labels of the new one. -/
def replacedAces (oldSacl newSacl : Option (List UInt8)) : List (List UInt8) :=
  (oldSacl.map (selectAces (· ≠ systemMandatoryLabelAceType))).getD [] ++
    (newSacl.map (selectAces (· = systemMandatoryLabelAceType))).getD []

/-- The size of the new list, a `data_size_t`. -/
def replacedSize (oldSacl newSacl : Option (List UInt8)) : Nat :=
  (sizeofAcl + ((replacedAces oldSacl newSacl).map List.length).sum) % 2 ^ 32

def replaceSecurityLabels (oldSacl newSacl : Option (List UInt8)) : Option (List UInt8) :=
  let aces := replacedAces oldSacl newSacl
  let size := replacedSize oldSacl newSacl
  let revision (acl : Option (List UInt8)) := (acl.map (·.getD 0 0)).getD 0
  if size > maxAclLen then none
  else
    some ([max (max aclRevision (revision oldSacl)) (revision newSacl), 0, UInt8.ofNat size,
      UInt8.ofNat (size / 256), UInt8.ofNat aces.length, UInt8.ofNat (aces.length / 256), 0, 0] ++
      aces.flatten)

/-! ### The function -/

/-- `struct security_descriptor`, with its components. -/
structure SdData where
  control : BitVec 32
  owner : List UInt8
  group : List UInt8
  sacl : List UInt8
  dacl : List UInt8
deriving DecidableEq, Repr

/-- The bytes of a SID: it has a header at least. -/
structure SidData where
  bytes : List UInt8
  header : sizeofSid ≤ bytes.length

/-- What is taken from a token. The default DACL may be missing; its bytes are as many as its size
field says. -/
structure TokenDefaults where
  owner : SidData
  primaryGroup : SidData
  defaultDacl : Option (List UInt8)

def seDaclPresent : BitVec 32 := 0x4

def seSaclPresent : BitVec 32 := 0x10

def seSelfRelative : BitVec 32 := 0x8000

def ownerSecurityInformation : BitVec 32 := 0x1

def groupSecurityInformation : BitVec 32 := 0x2

def daclSecurityInformation : BitVec 32 := 0x4

def saclSecurityInformation : BitVec 32 := 0x8

def labelSecurityInformation : BitVec 32 := 0x10

def SdData.daclPresent (sd : SdData) : Bool := sd.control &&& seDaclPresent ≠ 0

def SdData.saclPresent (sd : SdData) : Bool := sd.control &&& seSaclPresent ≠ 0

/-- A pointer to a component. -/
def pointer (bytes : List UInt8) : Option (List UInt8) := if bytes.length ≠ 0 then some bytes else none

def selects (setInfo info : BitVec 32) : Bool := setInfo &&& info ≠ 0

/-- The owner or the group of the new descriptor. -/
def chooseSid (selected : Bool) (new : List UInt8) (old : Option (List UInt8)) (token : Option SidData) :
    List UInt8 :=
  if selected ∧ new.length ≠ 0 then new
  else if (old.getD []).length ≠ 0 then old.getD []
  else (token.map SidData.bytes).getD []

/-- The SACL of the new descriptor, and whether its bit is set; nothing if the labels cannot be
replaced. -/
def chooseSacl (obj : Option SdData) (sd : SdData) (setInfo : BitVec 32) : Option (Bool × List UInt8) :=
  if selects setInfo saclSecurityInformation ∧ sd.saclPresent then some (true, sd.sacl)
  else if selects setInfo labelSecurityInformation ∧ sd.saclPresent then
    let oldSacl := obj.bind fun old => if old.saclPresent then pointer old.sacl else none
    (replaceSecurityLabels oldSacl (pointer sd.sacl)).map fun replaced => (true, replaced)
  else
    match obj with
    | some old => some (if old.saclPresent then (true, old.sacl) else (false, []))
    | none => some (false, [])

/-- The DACL of the new descriptor, and whether its bit is set; nothing if the size of the default DACL
is read through a null pointer. -/
def chooseDacl (obj : Option SdData) (sd : SdData) (setInfo : BitVec 32) (token : Option TokenDefaults) :
    Option (Bool × List UInt8) :=
  if selects setInfo daclSecurityInformation ∧ sd.daclPresent then some (true, sd.dacl)
  else if obj.any (·.daclPresent) then some (true, (obj.map SdData.dacl).getD [])
  else
    match token with
    | some token => token.defaultDacl.map fun dacl => (true, dacl)
    | none => some (false, [])

/-- The control bits of the new descriptor. -/
def newControl (control : BitVec 32) (hasSacl hasDacl : Bool) : BitVec 32 :=
  (control &&& ~~~seSelfRelative) ||| (if hasSacl then seSaclPresent else 0) |||
    (if hasDacl then seDaclPresent else 0)

/-- `set_sd_defaults_from_token`: its result and the descriptor of the object after it, or nothing if
the server reads through a null pointer. -/
def setSdDefaultsFromToken (obj : Option SdData) (sd : SdData) (setInfo : BitVec 32)
    (token : Option TokenDefaults) : Option (Bool × Option SdData) :=
  if setInfo = 0 then some (true, obj)
  else
    let owner := chooseSid (selects setInfo ownerSecurityInformation) sd.owner (obj.map SdData.owner)
      (token.map TokenDefaults.owner)
    let group := chooseSid (selects setInfo groupSecurityInformation) sd.group (obj.map SdData.group)
      (token.map TokenDefaults.primaryGroup)
    match chooseSacl obj sd setInfo with
    | none => some (false, obj)
    | some (hasSacl, sacl) =>
      (chooseDacl obj sd setInfo token).map fun (hasDacl, dacl) =>
        (true, some ⟨newControl sd.control hasSacl hasDacl, owner, group, sacl, dacl⟩)

/-! ### The control bits -/

theorem and_twoPow_ne_zero (control : BitVec 32) (i : Nat) (small : i < 32) :
    control &&& BitVec.twoPow 32 i ≠ 0 ↔ control.getLsbD i = true := by
  rw [BitVec.and_twoPow]
  split
  · next set =>
    refine iff_of_true (fun zero => ?_) set
    have bit := congrArg (BitVec.getLsbD · i) zero
    simp [small] at bit
  · next clear => exact iff_of_false (fun differ => differ rfl) clear

theorem SdData.daclPresent_eq (sd : SdData) : sd.daclPresent = sd.control.getLsbD 2 := by
  rw [daclPresent, Bool.eq_iff_iff, decide_eq_true_eq]
  exact and_twoPow_ne_zero sd.control 2 (by decide)

theorem SdData.saclPresent_eq (sd : SdData) : sd.saclPresent = sd.control.getLsbD 4 := by
  rw [saclPresent, Bool.eq_iff_iff, decide_eq_true_eq]
  exact and_twoPow_ne_zero sd.control 4 (by decide)

theorem newControl_present (control : BitVec 32) (hasSacl hasDacl : Bool) :
    (newControl control hasSacl hasDacl).getLsbD 4 = (control.getLsbD 4 || hasSacl) ∧
      (newControl control hasSacl hasDacl).getLsbD 2 = (control.getLsbD 2 || hasDacl) := by
  cases hasSacl <;> cases hasDacl <;> simp [newControl, seSelfRelative, seSaclPresent, seDaclPresent]

/-! ### What is kept -/

/-- The components that were not to be set are as they were, with their presence. -/
structure Kept (setInfo : BitVec 32) (old new : SdData) : Prop where
  owner : selects setInfo ownerSecurityInformation = false → new.owner = old.owner
  group : selects setInfo groupSecurityInformation = false → new.group = old.group
  sacl : selects setInfo saclSecurityInformation = false →
    selects setInfo labelSecurityInformation = false →
      new.saclPresent = old.saclPresent ∧ new.sacl = old.sacl
  dacl : selects setInfo daclSecurityInformation = false →
    new.daclPresent = old.daclPresent ∧ new.dacl = old.dacl

/-- The labels are to be replaced, and the list is too long with them. -/
def LabelsTooLong (old sd : SdData) (setInfo : BitVec 32) : Prop :=
  selects setInfo saclSecurityInformation = false ∧ selects setInfo labelSecurityInformation = true ∧
    sd.saclPresent = true ∧
    replacedSize (if old.saclPresent then pointer old.sacl else none) (pointer sd.sacl) > maxAclLen

/-- The condition for each of the components. -/
structure Unaffected (old sd : SdData) (setInfo : BitVec 32) (token : Option TokenDefaults) : Prop where
  owner : selects setInfo ownerSecurityInformation = false → old.owner ≠ [] ∨ token = none
  group : selects setInfo groupSecurityInformation = false → old.group ≠ [] ∨ token = none
  sacl : selects setInfo saclSecurityInformation = false →
    selects setInfo labelSecurityInformation = false →
      old.saclPresent = true ∨ (sd.saclPresent = false ∧ old.sacl = [])
  dacl : selects setInfo daclSecurityInformation = false →
    old.daclPresent = true ∨ (token = none ∧ sd.daclPresent = false ∧ old.dacl = [])
  /-- A default DACL that is needed is there. -/
  defaultDacl : ∀ t, token = some t → t.defaultDacl = none →
    old.daclPresent = true ∨ (selects setInfo daclSecurityInformation = true ∧ sd.daclPresent = true)

section Components

variable {old sd : SdData} {setInfo : BitVec 32} {token : Option TokenDefaults}

theorem chooseSid_kept_iff {new old : List UInt8} {token : Option SidData} :
    chooseSid false new (some old) token = old ↔ old ≠ [] ∨ token = none := by
  by_cases empty : old = []
  · cases token with
    | none => simp [chooseSid, empty]
    | some sid =>
      have header := sid.header
      have some : sid.bytes ≠ [] := by
        intro none
        rw [none] at header
        exact absurd header (by decide)
      simp [chooseSid, empty, some]
  · simp [chooseSid, empty]

theorem chooseSacl_none_iff : chooseSacl (some old) sd setInfo = none ↔ LabelsTooLong old sd setInfo := by
  unfold chooseSacl LabelsTooLong
  cases selects setInfo saclSecurityInformation <;> cases selects setInfo labelSecurityInformation <;>
    cases sd.saclPresent <;> simp [replaceSecurityLabels]

theorem chooseDacl_none_iff : chooseDacl (some old) sd setInfo token = none ↔
    ∃ t, token = some t ∧ t.defaultDacl = none ∧ ¬(old.daclPresent = true ∨
      (selects setInfo daclSecurityInformation = true ∧ sd.daclPresent = true)) := by
  unfold chooseDacl
  cases token <;> cases selects setInfo daclSecurityInformation <;> cases sd.daclPresent <;>
    cases present : old.daclPresent <;> simp [present]

variable {dacl group owner sacl : List UInt8} {hasDacl hasSacl : Bool}

theorem sacl_kept_iff (chosen : chooseSacl (some old) sd setInfo = some (hasSacl, sacl))
    (noSacl : selects setInfo saclSecurityInformation = false)
    (noLabel : selects setInfo labelSecurityInformation = false) :
    ((SdData.mk (newControl sd.control hasSacl hasDacl) owner group sacl dacl).saclPresent =
        old.saclPresent ∧ sacl = old.sacl) ↔
      old.saclPresent = true ∨ (sd.saclPresent = false ∧ old.sacl = []) := by
  simp only [chooseSacl, noSacl, noLabel] at chosen
  rw [SdData.saclPresent_eq ⟨_, _, _, _, _⟩, (newControl_present ..).1, ← SdData.saclPresent_eq sd]
  cases present : old.saclPresent with
  | true =>
    rw [present] at chosen
    cases chosen
    simp
  | false =>
    rw [present] at chosen
    cases chosen
    simp only [Bool.or_false, Bool.false_eq_true, false_or]
    exact and_congr_right fun _ => eq_comm

theorem dacl_kept_iff (chosen : chooseDacl (some old) sd setInfo token = some (hasDacl, dacl))
    (noDacl : selects setInfo daclSecurityInformation = false) :
    ((SdData.mk (newControl sd.control hasSacl hasDacl) owner group sacl dacl).daclPresent =
        old.daclPresent ∧ dacl = old.dacl) ↔
      old.daclPresent = true ∨ (token = none ∧ sd.daclPresent = false ∧ old.dacl = []) := by
  rw [SdData.daclPresent_eq ⟨_, _, _, _, _⟩, (newControl_present ..).2, ← SdData.daclPresent_eq sd]
  cases present : old.daclPresent with
  | true =>
    simp [chooseDacl, present, noDacl] at chosen
    simp [← chosen]
  | false =>
    simp [chooseDacl, present, noDacl] at chosen
    cases token with
    | none =>
      cases chosen
      simp only [Bool.or_false, Bool.false_eq_true, false_or, true_and]
      exact and_congr_right fun _ => eq_comm
    | some t =>
      obtain ⟨_, _, same⟩ := map_eq_some_iff.mp chosen
      cases same
      simp

/-- **What is not to be set stays as it was** exactly if nothing is to be set, or the function fails
because of the labels, or no component is affected. -/
theorem components_kept_iff (old sd : SdData) (setInfo : BitVec 32) (token : Option TokenDefaults) :
    (∃ done new, setSdDefaultsFromToken (some old) sd setInfo token = some (done, some new) ∧
      Kept setInfo old new) ↔
      setInfo = 0 ∨ LabelsTooLong old sd setInfo ∨ Unaffected old sd setInfo token := by
  have same : Kept setInfo old old :=
    ⟨fun _ => rfl, fun _ => rfl, fun _ _ => ⟨rfl, rfl⟩, fun _ => ⟨rfl, rfl⟩⟩
  by_cases zero : setInfo = 0
  · refine iff_of_true ⟨true, old, ?_, same⟩ (.inl zero)
    rw [setSdDefaultsFromToken, if_pos zero]
  rw [or_iff_right zero]
  cases chosenSacl : chooseSacl (some old) sd setInfo with
  | none =>
    refine iff_of_true ⟨false, old, ?_, same⟩ (.inl (chooseSacl_none_iff.mp chosenSacl))
    simp only [setSdDefaultsFromToken, if_neg zero, chosenSacl]
  | some chosen =>
    have short : ¬LabelsTooLong old sd setInfo := fun long => by
      rw [chooseSacl_none_iff.mpr long] at chosenSacl
      cases chosenSacl
    rw [or_iff_right short]
    obtain ⟨hasSacl, sacl⟩ := chosen
    cases chosenDacl : chooseDacl (some old) sd setInfo token with
    | none =>
      -- the null pointer
      obtain ⟨t, isToken, missing, needed⟩ := chooseDacl_none_iff.mp chosenDacl
      refine iff_of_false ?_ fun unaffected => needed (unaffected.defaultDacl t isToken missing)
      rintro ⟨done, new, run, -⟩
      simp only [setSdDefaultsFromToken, if_neg zero, chosenSacl, chosenDacl, map_none] at run
      cases run
    | some chosen =>
      obtain ⟨hasDacl, dacl⟩ := chosen
      have hasDefault : ∀ t, token = some t → t.defaultDacl = none → old.daclPresent = true ∨
          (selects setInfo daclSecurityInformation = true ∧ sd.daclPresent = true) := by
        intro t isToken missing
        by_contra needed
        rw [chooseDacl_none_iff.mpr ⟨t, isToken, missing, needed⟩] at chosenDacl
        cases chosenDacl
      simp only [setSdDefaultsFromToken, if_neg zero, chosenSacl, chosenDacl, map_some,
        some.injEq, Prod.mk.injEq, and_assoc, exists_and_left, exists_eq_left']
      constructor
      · intro kept
        refine ⟨fun no => ?_, fun no => ?_, fun noSacl noLabel => ?_, fun no => ?_, hasDefault⟩
        · have owner := kept.owner no
          simp only [no, chooseSid_kept_iff, map_eq_none_iff] at owner
          exact owner
        · have group := kept.group no
          simp only [no, chooseSid_kept_iff, map_eq_none_iff] at group
          exact group
        · exact (sacl_kept_iff chosenSacl noSacl noLabel).mp (kept.sacl noSacl noLabel)
        · exact (dacl_kept_iff chosenDacl no).mp (kept.dacl no)
      · intro unaffected
        refine ⟨fun no => ?_, fun no => ?_, fun noSacl noLabel => ?_, fun no => ?_⟩
        · simp only [no, chooseSid_kept_iff, map_eq_none_iff]
          exact unaffected.owner no
        · simp only [no, chooseSid_kept_iff, map_eq_none_iff]
          exact unaffected.group no
        · exact (sacl_kept_iff chosenSacl noSacl noLabel).mpr (unaffected.sacl noSacl noLabel)
        · exact (dacl_kept_iff chosenDacl no).mpr (unaffected.dacl no)

end Components

/-- An object whose descriptor has an owner, a group and an empty DACL, and no SACL. -/
def withoutSacl : SdData :=
  ⟨seDaclPresent, List.replicate 8 1, List.replicate 8 2, [], [2, 0, 8, 0, 0, 0, 0, 0]⟩

/-- A token with an empty default DACL. -/
def plainToken : TokenDefaults :=
  ⟨⟨List.replicate 8 1, by decide⟩, ⟨List.replicate 8 2, by decide⟩, some [2, 0, 8, 0, 0, 0, 0, 0]⟩

/-- To set the owner gives the object a SACL if the descriptor with the new owner has the bit of one. -/
theorem owner_set_adds_sacl :
    ∃ new, setSdDefaultsFromToken (some withoutSacl) ⟨seSaclPresent, List.replicate 8 3, [], [], []⟩
        ownerSecurityInformation (some plainToken) = some (true, some new) ∧
      withoutSacl.saclPresent = false ∧ new.saclPresent = true ∧
      ¬Kept ownerSecurityInformation withoutSacl new := by
  refine ⟨_, rfl, by decide, by decide, fun kept => ?_⟩
  exact absurd (kept.sacl (by decide) (by decide)).1 (by decide)

end FreeWindows.Security
