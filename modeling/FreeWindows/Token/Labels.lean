/-
**Replacing the labels of a list.**

`extract_security_labels` and `replace_security_labels` go over the entries of a list twice: they add up
the sizes of those that are wanted, and copy them.

* `WellFormed`: the entries lie in the list, one behind the other, each with its header;
* `aclBytes_spec`: a list that was put together is well formed, and has the entries that went into it;
* **`labels_replaced`**: the new list has the other entries of the old one and the labels of the given one,
  and replacing the labels once more changes nothing.
-/

import FreeWindows.Token.Defaults

namespace FreeWindows.Security

open List Nat

/-- The bytes of a list with these entries. -/
def aclBytes (revision : UInt8) (aces : List (List UInt8)) : List UInt8 :=
  let size := sizeofAcl + (aces.map List.length).sum
  [revision, 0, UInt8.ofNat size, UInt8.ofNat (size / 256), UInt8.ofNat aces.length,
    UInt8.ofNat (aces.length / 256), 0, 0] ++ aces.flatten

/-- The labels among the entries. -/
abbrev labelsOf : List UInt8 → List (List UInt8) := selectAces (· = systemMandatoryLabelAceType)

/-- The entries that are no labels. -/
abbrev othersOf : List UInt8 → List (List UInt8) := selectAces (· ≠ systemMandatoryLabelAceType)

/-- `extract_security_labels`. -/
def extractSecurityLabels (sacl : List UInt8) : List UInt8 := aclBytes (sacl.getD 0 0) (labelsOf sacl)

/-- The memory that `selectAces` reads. -/
abbrev memoryOf (acl : List UInt8) : Memory := bufferMemory acl fun _ => 0

/-- So many entries, with their headers, end where the list does or before. -/
def AcesInside (mem : Memory) (stop : Nat) : (left ace : Nat) → Prop
  | 0, _ => True
  | left + 1, ace => sizeofAce ≤ aceSize mem ace ∧ aceNext mem ace ≤ stop ∧
    AcesInside mem stop left (aceNext mem ace)

/-- **Every entry is inside the list**, and the list is in its buffer. -/
structure WellFormed (acl : List UInt8) : Prop where
  header : sizeofAcl ≤ sizeField acl
  buffer : sizeField acl ≤ acl.length
  inside : AcesInside (memoryOf acl) (sizeField acl) (aclCount (memoryOf acl) 0) (aceFirst 0)

/-! ### Single entries -/

/-- The bytes of an entry: the header is in them, and they are as many as it says. -/
def IsAce (ace : List UInt8) : Prop := sizeofAce ≤ ace.length ∧ sizeField ace = ace.length

section Entries

variable {mem : Memory} {acl : List UInt8} {stop left start length i : Nat} {wanted : UInt8 → Bool}

theorem memoryOf_eq (acl : List UInt8) (p : Nat) : memoryOf acl p = acl.getD p 0 := by
  unfold memoryOf bufferMemory
  split
  · rfl
  · rw [getD_eq_default _ _ (by omega)]

theorem getD_bytesAt (inside : i < length) : (bytesAt mem start length).getD i 0 = mem (start + i) := by
  simp [bytesAt, inside]

theorem AcesInside.large (inside : AcesInside mem stop left start) :
    ∀ ace ∈ aces mem left start, sizeofAce ≤ aceSize mem ace := by
  induction left generalizing start with
  | zero => exact nofun
  | succ left ih => exact forall_mem_cons.mpr ⟨inside.1, ih inside.2.2⟩

/-- What is selected are entries of the wanted types. -/
theorem WellFormed.isAce (fine : WellFormed acl) :
    ∀ ace ∈ selectAces wanted acl, IsAce ace ∧ wanted (ace.getD 0 0) = true := by
  intro ace member
  obtain ⟨start, selected, rfl⟩ := mem_map.mp member
  obtain ⟨walked, isWanted⟩ := mem_filter.mp selected
  have large : 8 ≤ aceSize (bufferMemory acl fun _ => 0) start := fine.inside.large start walked
  refine ⟨⟨by rwa [length_bytesAt], ?_⟩, ?_⟩
  · rw [length_bytesAt, sizeField, getD_bytesAt (by omega), getD_bytesAt (by omega)]
    rfl
  · rw [getD_bytesAt (by omega)]
    exact isWanted

end Entries

/-! ### Lists that are put together -/

variable {list : List (List UInt8)}

/-- **The walk over entries in a row** finds them. -/
theorem walk_flatten {mem : Memory} (all : ∀ ace ∈ list, IsAce ace) {front : List UInt8}
    (isMem : mem = memoryOf (front ++ list.flatten)) :
    (aces mem list.length front.length).map (fun ace => bytesAt mem ace (aceSize mem ace)) = list ∧
      AcesInside mem (front ++ list.flatten).length list.length front.length := by
  induction list generalizing front with
  | nil => exact ⟨rfl, trivial⟩
  | cons ace rest ih =>
    obtain ⟨⟨large, states⟩, others⟩ := forall_mem_cons.mp all
    obtain ⟨walked, inside⟩ := @ih others (front ++ ace) (by rw [isMem, flatten_cons, append_assoc])
    rw [append_assoc, ← flatten_cons, @length_append _ front ace] at inside
    rw [length_append] at walked
    have here : ∀ i < ace.length, mem (front.length + i) = ace.getD i 0 := by
      intro i inside
      rw [isMem, memoryOf_eq, flatten_cons, getD_append_right _ _ _ _ (by omega),
        Nat.add_sub_cancel_left, getD_append _ _ _ _ inside]
    unfold sizeofAce at large
    have size : aceSize mem front.length = ace.length := by
      rw [← states, aceSize, Memory.word, sizeField, here 2 (by omega), add_assoc, here 3 (by omega)]
    have bytes : bytesAt mem front.length ace.length = ace := by
      refine ext_getElem (length_bytesAt ..) fun i _ inside => ?_
      simp only [bytesAt, getElem_map, getElem_range, here i inside, getD_eq_getElem _ _ inside]
    refine ⟨?_, ?_⟩
    · rw [length_cons, aces, map_cons, size, bytes, aceNext, size, walked]
    · rw [length_cons, AcesInside, aceNext, size]
      refine ⟨large, ?_, inside⟩
      rw [flatten_cons, length_append, length_append]
      omega

variable (all : ∀ ace ∈ list, IsAce ace) (fits : sizeofAcl + (list.map List.length).sum ≤ maxAclLen)
include all fits

/-- **The new list** is well formed, and has the entries. -/
theorem aclBytes_spec (revision : UInt8) :
    WellFormed (aclBytes revision list) ∧ selectAces (fun _ => true) (aclBytes revision list) = list := by
  have few : list.length ≤ (list.map length).sum := by
    have := length_le_sum_of_one_le (list.map length) fun length member => by
      obtain ⟨ace, inside, rfl⟩ := mem_map.mp member
      have := (all ace inside).1
      unfold sizeofAce at this
      omega
    rwa [length_map] at this
  have isLength : (aclBytes revision list).length = sizeofAcl + (list.map length).sum := by
    rw [aclBytes, length_append, length_flatten]
    rfl
  unfold maxAclLen sizeofAcl at fits
  have size : sizeField (aclBytes revision list) = (aclBytes revision list).length := by
    simp [sizeField, aclBytes, sizeofAcl]
    omega
  have count : aclCount (memoryOf (aclBytes revision list)) 0 = list.length := by
    simp only [aclCount, Memory.word, memoryOf_eq]
    simp [aclBytes]
    omega
  have split : aclBytes revision list = (aclBytes revision list).take 8 ++ list.flatten := rfl
  obtain ⟨walked, inside⟩ := walk_flatten all (congrArg memoryOf split)
  refine ⟨⟨by rw [size, isLength]; exact Nat.le_add_right _ _, Nat.le_of_eq size, ?_⟩, ?_⟩
  · rw [size, count]
    exact inside
  · simp only [selectAces, filter_true, aclAces, count]
    exact walked

theorem selectAces_aclBytes (revision : UInt8) (wanted : UInt8 → Bool) :
    selectAces wanted (aclBytes revision list) = list.filter fun ace => wanted (ace.getD 0 0) := by
  obtain ⟨fine, entries⟩ := aclBytes_spec all fits revision
  conv_rhs => rw [← entries]
  simp only [selectAces, filter_true, filter_map]
  refine congrArg (map _) (filter_congr fun start walked => ?_)
  have large : 8 ≤ aceSize (bufferMemory _ fun _ => 0) start := fine.inside.large start walked
  rw [Function.comp_apply, getD_bytesAt (by omega)]
  rfl

omit all fits

/-- The revision of a list, or 0. -/
def revisionOf (acl : Option (List UInt8)) : UInt8 := (acl.map (·.getD 0 0)).getD 0

theorem replaceSecurityLabels_eq {old new : Option (List UInt8)}
    (fits : sizeofAcl + ((replacedAces old new).map List.length).sum ≤ maxAclLen) :
    replaceSecurityLabels old new =
      some (aclBytes (max (max aclRevision (revisionOf old)) (revisionOf new)) (replacedAces old new)) := by
  have size : replacedSize old new = sizeofAcl + ((replacedAces old new).map length).sum :=
    Nat.mod_eq_of_lt (Nat.lt_of_le_of_lt fits (by decide))
  simp only [replaceSecurityLabels, size, if_neg (Nat.not_lt.mpr fits), aclBytes, revisionOf]

theorem toNat_max (a b : UInt8) : (max a b).toNat = max a.toNat b.toNat := by
  change (if a ≤ b then b else a).toNat = _
  rw [apply_ite UInt8.toNat, Nat.max_def]
  rfl

/-- The wanted entries of a list, if there is one. -/
theorem isAce_of_fine {acl : Option (List UInt8)} (fine : ∀ list ∈ acl, WellFormed list)
    (wanted : UInt8 → Bool) :
    ∀ ace ∈ (acl.map (selectAces wanted)).getD [], IsAce ace ∧ wanted (ace.getD 0 0) = true := by
  cases acl with
  | none => exact nofun
  | some list => exact (fine list rfl).isAce

/-- **Labels are replaced.** The new list is well formed, has the other entries of the old one and the
labels of the given one, but for the revision, and is kept if its labels are replaced once more. -/
theorem labels_replaced (old new : Option (List UInt8)) (oldFine : ∀ acl ∈ old, WellFormed acl)
    (newFine : ∀ acl ∈ new, WellFormed acl)
    (fits : sizeofAcl + ((replacedAces old new).map List.length).sum ≤ maxAclLen) :
    ∃ acl, replaceSecurityLabels old new = some acl ∧ WellFormed acl ∧
      othersOf acl = (old.map othersOf).getD [] ∧
      (∀ sacl ∈ new, (extractSecurityLabels acl).drop 1 = (extractSecurityLabels sacl).drop 1) ∧
      replaceSecurityLabels (some acl) new = some acl := by
  have others := isAce_of_fine oldFine (· ≠ systemMandatoryLabelAceType)
  have labels := isAce_of_fine newFine (· = systemMandatoryLabelAceType)
  have all : ∀ ace ∈ replacedAces old new, IsAce ace :=
    forall_mem_append.mpr ⟨fun ace member => (others ace member).1, fun ace member => (labels ace member).1⟩
  refine ⟨_, replaceSecurityLabels_eq fits, (aclBytes_spec all fits _).1, ?_⟩
  generalize isRevision : max (max aclRevision (revisionOf old)) (revisionOf new) = revision
  have othersKept : othersOf (aclBytes revision (replacedAces old new)) = (old.map othersOf).getD [] := by
    rw [othersOf, selectAces_aclBytes all fits, replacedAces, filter_append,
      filter_eq_self.mpr fun ace member => (others ace member).2, filter_eq_nil_iff.mpr, append_nil]
    intro ace member
    simpa using (labels ace member).2
  have labelsTaken : labelsOf (aclBytes revision (replacedAces old new)) = (new.map labelsOf).getD [] := by
    rw [labelsOf, selectAces_aclBytes all fits, replacedAces, filter_append, filter_eq_nil_iff.mpr,
      nil_append, filter_eq_self.mpr fun ace member => (labels ace member).2]
    intro ace member
    simpa using (others ace member).2
  refine ⟨othersKept, ?_, ?_⟩
  · rintro sacl ⟨⟩
    rw [extractSecurityLabels, labelsTaken]
    rfl
  · have same : replacedAces (some (aclBytes revision (replacedAces old new))) new = replacedAces old new :=
      congrArg (· ++ _) othersKept
    have kept : max (max aclRevision revision) (revisionOf new) = revision := by
      simp only [← isRevision, ← UInt8.toNat_inj, toNat_max]
      omega
    rw [replaceSecurityLabels_eq (by rwa [same]), same]
    exact congrArg (fun revision => some (aclBytes revision _)) kept

/-- A list with an audit entry, and a label of the given mask. -/
def labelled (mask : UInt8) : List UInt8 := aclBytes 2 [[2, 0, 8, 0, 1, 0, 0, 0], [0x11, 0, 8, 0, mask, 0, 0, 0]]

theorem labels_replaced_labelled :
    replaceSecurityLabels (some (labelled 1)) (some (labelled 2)) = some (labelled 2) ∧
      ∃ acl, replaceSecurityLabels (some (labelled 1)) (some (labelled 2)) = some acl ∧ WellFormed acl := by
  have fine : ∀ mask, ∀ acl ∈ some (labelled mask), WellFormed acl := by
    rintro mask _ ⟨⟩
    refine (aclBytes_spec ?_ (le_of_ble_eq_true rfl) 2).1
    simp [IsAce, sizeofAce, sizeField]
  obtain ⟨acl, done, still, -⟩ := labels_replaced (some (labelled 1)) (some (labelled 2)) (fine 1) (fine 2)
    (by decide +kernel)
  exact ⟨by decide +kernel, acl, done, still⟩

end FreeWindows.Security
