/-
**The subkeys arrays.**

In an `Ordered` heap the subkeys array of every key is strictly increasing in the order of
`find_subkey` and has exactly the keys that have this key as their parent. Creating, deleting and
loading keys keep this, and so does a rename unless it writes to the slot behind the key's old one
(`Ordered.renameKey`).
-/

import FreeWindows.Lib.Ensures
import FreeWindows.Registry.Requests

namespace FreeWindows.Registry

open Lib List Option Heap Key

/-- The subkeys arrays are in order, hold exactly the children and fit into their memory. -/
structure Ordered (heap : Heap) : Prop where
  ascending : ∀ k, Ascending heap.casemap (fun c => (heap.key c).name) (heap.key k).subkeys
  exactly : ∀ k c, c ∈ (heap.key k).subkeys ↔ (heap.key c).parent = some k
  fits : ∀ k, (heap.key k).subkeys.length ≤ (heap.key k).nbSubkeys
  slots : ∀ k, (heap.key k).nbSubkeys = 0 ∨ minSubkeys ≤ (heap.key k).nbSubkeys

/-! ### Changes that leave the tree as it is -/

/-- Names, parents and subkeys are the same. -/
structure SameTree (heap heap' : Heap) : Prop where
  casemap : heap'.casemap = heap.casemap
  next : heap'.next = heap.next
  objName : ∀ k, (heap'.key k).objName = (heap.key k).objName
  subkeys : ∀ k, (heap'.key k).subkeys = (heap.key k).subkeys
  nbSubkeys : ∀ k, (heap'.key k).nbSubkeys = (heap.key k).nbSubkeys

theorem SameTree.refl (heap : Heap) : SameTree heap heap :=
  ⟨rfl, rfl, fun _ => rfl, fun _ => rfl, fun _ => rfl⟩

variable {k index : Nat} {back front : List Nat}

section Same

variable {heap heap' heap'' : Heap}

theorem SameTree.trans (first : SameTree heap heap') (second : SameTree heap' heap'') :
    SameTree heap heap'' :=
  ⟨second.casemap.trans first.casemap, second.next.trans first.next,
    fun k => (second.objName k).trans (first.objName k),
    fun k => (second.subkeys k).trans (first.subkeys k),
    fun k => (second.nbSubkeys k).trans (first.nbSubkeys k)⟩

theorem SameTree.name (same : SameTree heap heap') (k : Nat) :
    (heap'.key k).name = (heap.key k).name := by
  rw [Key.name, Key.name, same.objName]

theorem SameTree.parent (same : SameTree heap heap') (k : Nat) :
    (heap'.key k).parent = (heap.key k).parent := by
  rw [Key.parent, Key.parent, same.objName]

theorem SameTree.ordered (same : SameTree heap heap') (ordered : Ordered heap) :
    Ordered heap' where
  ascending k := by
    rw [same.casemap, same.subkeys, funext fun c => same.name c]
    exact ordered.ascending k
  exactly k c := by
    rw [same.subkeys, same.parent]
    exact ordered.exactly k c
  fits k := by
    rw [same.subkeys, same.nbSubkeys]
    exact ordered.fits k
  slots k := by
    rw [same.nbSubkeys]
    exact ordered.slots k

section Fields

variable (heap : Heap) (k : Nat)

@[simp]
theorem Heap.set_key (new : Key) (linked) (children) (i : Nat) :
    (heap.set k new linked children).key i = if i = k then new else heap.key i := rfl

/-- A part of the keys that the change of one of them keeps. -/
theorem part_kept {γ : Type} (part : Key → γ) {key : Nat → Key} {k : Nat} {new : Key}
    (kept : part new = part (key k)) (i : Nat) : part (if i = k then new else key i) = part (key i) := by
  split
  next same => rw [same, kept]
  next => rfl

theorem Heap.modify_kept {γ : Type} (part : Key → γ) {change : Key → Key} {same}
    (kept : ∀ key, part (change key) = part key) (i : Nat) :
    part ((heap.modify k change same).key i) = part (heap.key i) := part_kept part (kept _) i

theorem Heap.modify_sameTree (change : Key → Key) (same)
    (objName : ∀ key, (change key).objName = key.objName)
    (nbSubkeys : ∀ key, (change key).nbSubkeys = key.nbSubkeys) :
    SameTree heap (heap.modify k change same) where
  casemap := rfl
  next := rfl
  objName := heap.modify_kept k Key.objName objName
  subkeys := heap.modify_kept k subkeys fun key => (same key).2
  nbSubkeys := heap.modify_kept k Key.nbSubkeys nbSubkeys

theorem Heap.setFlags_sameTree (change : Flags → Flags) : SameTree heap (heap.setFlags k change) :=
  heap.modify_sameTree k _ _ (fun _ => rfl) fun _ => rfl

theorem Heap.setValues_sameTree (values : List KeyValue) (nbValues : Nat) :
    SameTree heap (heap.setValues k values nbValues) :=
  heap.modify_sameTree k _ _ (fun _ => rfl) fun _ => rfl

theorem Heap.setClass_sameTree (cls : Name) : SameTree heap (heap.setClass k cls) :=
  heap.modify_sameTree k _ _ (fun _ => rfl) fun _ => rfl

end Fields

/-! ### Changes of `KEY_DIRTY` -/

/-- Nothing but `KEY_DIRTY` is changed, on any number of keys. -/
structure OnlyDirty (heap heap' : Heap) : Prop extends SameTree heap heap' where
  settled : ∀ k, (heap'.key k).data.settled = (heap.key k).data.settled

theorem OnlyDirty.refl (heap : Heap) : OnlyDirty heap heap := ⟨SameTree.refl heap, fun _ => rfl⟩

theorem OnlyDirty.trans (first : OnlyDirty heap heap') (second : OnlyDirty heap' heap'') :
    OnlyDirty heap heap'' :=
  ⟨first.toSameTree.trans second.toSameTree, fun k => (second.settled k).trans (first.settled k)⟩

theorem OnlyDirty.volatile (only : OnlyDirty heap heap') (k : Nat) :
    (heap'.key k).flags.volatile = (heap.key k).flags.volatile :=
  congrArg (·.flags.volatile) (only.settled k)

theorem Heap.setDirty_onlyDirty (heap : Heap) (k : Nat) (dirty : Bool) :
    OnlyDirty heap (heap.setFlags k fun flags => { flags with dirty }) :=
  ⟨heap.setFlags_sameTree k _, heap.modify_kept k (·.data.settled) fun _ => rfl⟩

theorem Heap.makeDirty_onlyDirty (heap : Heap) (k : Nat) : OnlyDirty heap (heap.makeDirty k) := by
  fun_induction makeDirty heap k with
  | case1 heap k => exact OnlyDirty.refl heap
  | case2 heap k => exact heap.setDirty_onlyDirty k true
  | case3 heap k _ _ p _ ih => exact (heap.setDirty_onlyDirty k true).trans ih

theorem Heap.makeClean_onlyDirty (depth : Nat) (heap : Heap) (k : Nat) :
    OnlyDirty heap (makeClean depth heap k) := by
  induction depth generalizing heap k with
  | zero => exact OnlyDirty.refl heap
  | succ depth ih =>
    unfold makeClean
    split
    · exact OnlyDirty.refl heap
    · split
      · exact OnlyDirty.refl heap
      · exact (heap.setDirty_onlyDirty k false).trans
          (List.foldlRecOn _ _ (OnlyDirty.refl _) fun mid only k _ => only.trans (ih mid k))

theorem Heap.makeDirty_sameTree (heap : Heap) (k : Nat) : SameTree heap (heap.makeDirty k) :=
  (heap.makeDirty_onlyDirty k).toSameTree

/-- A name that is too long changes nothing, any other one the values of the key. -/
theorem Heap.storeValue_cases (heap : Heap) (k : Nat) (name : Name) (type : UInt32)
    (data : List UInt8) : heap.storeValue k name type data = (heap, some .nameTooLong) ∨
      ∃ values nbValues, heap.storeValue k name type data =
        (heap.setValues k values nbValues, none) := by
  unfold storeValue
  split
  · exact .inr ⟨_, _, rfl⟩
  · split
    · exact .inl rfl
    · exact .inr ⟨_, _, rfl⟩

/-- Requests for values change the values of one key and make it dirty, or do nothing. -/
def OnValues (heap : Heap) (k : Nat) (heap' : Heap) : Prop :=
  heap' = heap ∨ ∃ values nbValues, heap' = (heap.setValues k values nbValues).makeDirty k

theorem Heap.setValue_onValues (heap : Heap) (k : Nat) (name : Name) (type : UInt32)
    (data : List UInt8) : OnValues heap k (heap.setValue k name type data).1 := by
  unfold setValue
  dsimp only
  split
  · exact .inl rfl
  split
  · exact .inl rfl
  split
  · exact .inl rfl
  · rcases heap.storeValue_cases k name type data with long | ⟨values, nbValues, stored⟩
    · rw [long]
      exact .inl rfl
    · rw [stored]
      exact .inr ⟨values, nbValues, rfl⟩

theorem Heap.deleteValue_onValues (heap : Heap) (k : Nat) (name : Name) :
    OnValues heap k (heap.deleteValue k name).1 := by
  unfold deleteValue
  dsimp only
  split
  · exact .inl rfl
  · split
    · exact .inl rfl
    · exact .inr ⟨_, _, rfl⟩

theorem OnValues.sameTree (values : OnValues heap k heap') : SameTree heap heap' := by
  rcases values with rfl | ⟨values, nbValues, rfl⟩
  · exact SameTree.refl _
  · exact (heap.setValues_sameTree k values nbValues).trans (makeDirty_sameTree _ k)

theorem Heap.storeValue_sameTree (heap : Heap) (k : Nat) (name : Name) (type : UInt32)
    (data : List UInt8) : SameTree heap (heap.storeValue k name type data).1 := by
  rcases heap.storeValue_cases k name type data with long | ⟨values, nbValues, stored⟩
  · rw [long]
    exact SameTree.refl heap
  · rw [stored]
    exact heap.setValues_sameTree k values nbValues

end Same

/-! ### Moving entries -/

/-- **Where a rename moves an entry**: between the smaller and the larger ones, unless the slot
right behind its old one is the place of another entry or not there. -/
theorem moveSlot_eq {allocated : Nat} (new : k ∉ front) (bound : index ≤ (front ++ k :: back).length)
    (fits : (front ++ k :: back).length ≤ allocated)
    (aside : index = front.length + 1 → back = [] ∧ (front ++ k :: back).length < allocated) :
    ∃ front' back', moveSlot (front ++ k :: back) allocated k index =
        .ok (front' ++ k :: back') ∧ front' ++ back' = front ++ back ∧
      (∀ c ∈ front', c ∈ (front ++ k :: back).take index) ∧
      ∀ c ∈ back', c ∈ (front ++ k :: back).drop index := by
  have cur : (front ++ k :: back).idxOf k = front.length := by
    rw [idxOf_append_of_notMem new, idxOf_cons_self, Nat.add_zero]
  have total : (front ++ k :: back).length = front.length + back.length + 1 := by
    simp [Nat.add_assoc]
  unfold moveSlot
  dsimp only
  rw [cur]
  rcases Nat.lt_trichotomy index (front.length + 1) with low | near | high
  · -- the entry moves to the front, or stays where it is
    refine ⟨front.take index, front.drop index ++ back, ?_, ?_, ?_, ?_⟩
    · have shifted := shiftUp_set (front.take index) (front.drop index) back k k
      rw [take_append_drop, length_take_of_le (by omega), length_drop,
        Nat.add_sub_cancel' (by omega)] at shifted
      have moved : shiftEntries (front ++ k :: back) front.length index =
          (shiftUp (front ++ k :: back) front.length index, index) := by
        rw [shiftEntries, if_neg (by omega)]
        by_cases moves : index < front.length
        · rw [if_pos moves]
        · rw [if_neg moves, shiftUp, if_neg moves]
      rw [moved]
      rw [if_neg (by omega), shifted]
    · rw [← append_assoc, take_append_drop]
    · intro c member
      rw [take_append_of_le_length (by omega)]
      exact member
    · intro c member
      rw [drop_append_of_le_length (by omega)]
      rcases mem_append.mp member with inFront | inBack
      · exact mem_append_left _ inFront
      · exact mem_append_right _ (mem_cons_of_mem _ inBack)
  · -- the slot behind the entry is not used
    obtain ⟨rfl, room⟩ := aside near
    refine ⟨front, [], ?_, rfl, fun c member => ?_, fun c member => absurd member not_mem_nil⟩
    on_goal 2 =>
      rw [take_of_length_le (by simp; omega)]
      exact mem_append_left _ member
    have moved : shiftEntries (front ++ [k]) front.length index = (front ++ [k], index) := by
      rw [shiftEntries, if_neg (by omega), if_neg (by omega)]
    rw [moved]
    rw [if_neg (by omega), set_eq_of_length_le (by simp; omega)]
  · -- the entries in between move to the front
    refine ⟨front ++ back.take (index - front.length - 1), back.drop (index - front.length - 1),
      ?_, ?_, ?_, ?_⟩
    · have shifted := shiftDown_set front (back.take (index - front.length - 1))
        (back.drop (index - front.length - 1)) k k
      rw [append_assoc, cons_append, take_append_drop, length_take_of_le (by omega)] at shifted
      have target : front.length + (index - front.length - 1) = index - 1 := by omega
      have moved : shiftEntries (front ++ k :: back) front.length index =
          (shiftDown (front ++ k :: back) front.length (index - 1), index - 1) := by
        rw [shiftEntries, if_pos (by omega)]
      rw [moved]
      rw [if_neg (by omega), ← shifted, target]
    · rw [append_assoc, take_append_drop]
    · intro c member
      rw [take_append, take_of_length_le (by omega),
        show index - front.length = (index - front.length - 1) + 1 by omega, take_succ_cons]
      rcases mem_append.mp member with inFront | inBack
      · exact mem_append_left _ inFront
      · exact mem_append_right _ (mem_cons_of_mem _ inBack)
    · intro c member
      rw [drop_append, show index - front.length = (index - front.length - 1) + 1 by omega,
        drop_succ_cons]
      exact mem_append_right _ member

section Keys

variable {heap heap' : Heap} {p : Nat} {name : Name}

theorem Ordered.nodup (ordered : Ordered heap) (k : Nat) : (heap.key k).subkeys.Nodup :=
  (ordered.ascending k).nodup

/-- `find_subkey` finds nothing only if it reports where the name belongs. -/
theorem gap_of_subkey_none (missing : heap.subkey p name = none) :
    ∃ index, heap.findSubkey p name = .gap index := by
  unfold subkey at missing
  split at missing
  next index found =>
    obtain ⟨c, place, _⟩ := findName_found found
    rw [place] at missing
    nomatch missing
  next index gap => exact ⟨index, gap⟩

/-! ### Creating a key -/

section Link

variable (older : p < heap.next) (name : Name) (flags : Flags)

theorem Heap.link_new :
    (heap.link p older name flags).key heap.next = { objName := some ⟨name, some p⟩, flags } :=
  (if_neg (ne_of_gt older)).trans (if_pos rfl)

theorem Heap.link_objName (i : Nat) :
    ((heap.link p older name flags).key i).objName =
      if i = heap.next then some ⟨name, some p⟩ else (heap.key i).objName := by
  rw [link, set_key]
  dsimp only [addKey]
  split_ifs with parent new new <;> first | omega | simp only [parent]

theorem Heap.link_parent (i : Nat) :
    ((heap.link p older name flags).key i).parent =
      if i = heap.next then some p else (heap.key i).parent := by
  rw [parent, link_objName]
  split <;> rfl

theorem Heap.link_subkeys (i : Nat) :
    ((heap.link p older name flags).key i).subkeys =
      if i = p then insertSlot (heap.key p).subkeys (heap.insertionIndex p name) heap.next
      else if i = heap.next then [] else (heap.key i).subkeys := by
  rw [link, set_key]
  dsimp only [addKey]
  split_ifs <;> rfl

theorem Heap.link_nbSubkeys (i : Nat) :
    ((heap.link p older name flags).key i).nbSubkeys =
      if i = p then grown (heap.key p).subkeys.length (heap.key p).nbSubkeys minSubkeys
      else if i = heap.next then 0 else (heap.key i).nbSubkeys := by
  rw [link, set_key]
  dsimp only [addKey]
  split_ifs <;> rfl

theorem Heap.link_data (i : Nat) :
    ((heap.link p older name flags).key i).data =
      if i = heap.next then ⟨none, [], 0, flags⟩ else (heap.key i).data := by
  rw [link, set_key]
  dsimp only [addKey]
  split_ifs with parent new new <;> first | omega | rw [parent]; rfl | rfl

end Link

/-- The new key is put between two parts of the array. -/
theorem Heap.link_slots (older : p < heap.next) (flags : Flags) (missing : heap.subkey p name = none) :
    ∃ index, index ≤ (heap.key p).subkeys.length ∧
      ((heap.link p older name flags).key p).subkeys =
        (heap.key p).subkeys.take index ++ heap.next :: (heap.key p).subkeys.drop index := by
  obtain ⟨index, gap⟩ := gap_of_subkey_none missing
  have bound : index ≤ (heap.key p).subkeys.length := bisect_gap_le (Nat.zero_le _) gap
  refine ⟨index, bound, ?_⟩
  rw [link_subkeys, if_pos rfl, insertionIndex, gap]
  exact shiftUp_insert heap.next bound

theorem Heap.next_notMem_subkeys (heap : Heap) (i : Nat) : heap.next ∉ (heap.key i).subkeys :=
  fun member => lt_irrefl _ (heap.children i _ member).2

theorem Heap.link_exactly (older : p < heap.next) (flags : Flags)
    (missing : heap.subkey p name = none) (i : Nat) :
    heap.next ∈ ((heap.link p older name flags).key i).subkeys ↔
      ((heap.link p older name flags).key heap.next).parent = some i := by
  rw [link_parent, if_pos rfl]
  by_cases parent : i = p
  · obtain ⟨index, _, slots⟩ := link_slots older flags missing
    rw [parent, slots]
    simp
  · rw [link_subkeys, if_neg parent]
    split
    · simp [Ne.symm parent]
    · simp [Ne.symm parent, heap.next_notMem_subkeys]

theorem lt_grown {used slots min : Nat} (two : 2 ≤ min) (fits : used ≤ slots)
    (large : slots = 0 ∨ min ≤ slots) : used < grown used slots min ∧ min ≤ grown used slots min := by
  unfold grown
  split_ifs <;> omega

theorem le_shrunk {used slots min : Nat} (fits : used + 1 ≤ slots) (large : slots = 0 ∨ min ≤ slots) :
    used ≤ shrunk used slots min ∧ min ≤ shrunk used slots min := by
  unfold shrunk
  split_ifs <;> omega

/-- **A new key** has its place in the array of its parent. -/
theorem Ordered.link (ordered : Ordered heap) (older : p < heap.next) (flags : Flags)
    (missing : heap.subkey p name = none) : Ordered (heap.link p older name flags) := by
  obtain ⟨index, gap⟩ := gap_of_subkey_none missing
  obtain ⟨bound, smaller, larger⟩ := findName_gap (ordered.ascending p) gap
  have place : heap.insertionIndex p name = index := by rw [insertionIndex, gap]
  have slots : insertSlot _ index _ = _ := shiftUp_insert heap.next bound
  have names : ∀ c, ((heap.link p older name flags).key c).name =
      if c = heap.next then name else (heap.key c).name := by
    intro c
    rw [Key.name, link_objName]
    split <;> rfl
  have oldNames : ∀ j, ∀ c ∈ (heap.key j).subkeys,
      ((heap.link p older name flags).key c).name = (heap.key c).name := by
    intro j c member
    rw [names, if_neg (ne_of_lt (heap.children j c member).2)]
  refine ⟨fun j => ?_, fun j c => ?_, fun j => ?_, fun j => ?_⟩
  · rw [link_subkeys]
    split_ifs with parent new
    · -- the parent's array: the new key stands between the smaller and the larger names
      rw [place, slots]
      refine Ascending.insert ?_ (fun c inFront => ?_) fun c behind => ?_
      · rw [take_append_drop]
        exact (ordered.ascending p).congr (oldNames p)
      · rw [oldNames p c (mem_of_mem_take inFront), names, if_pos rfl]
        exact smaller c inFront
      · rw [oldNames p c (mem_of_mem_drop behind), names, if_pos rfl]
        exact larger c behind
    · exact List.Pairwise.nil
    · exact (ordered.ascending j).congr (oldNames j)
  · by_cases new : c = heap.next
    · rw [new, link_exactly older flags missing]
    · rw [link_parent, link_subkeys, place, slots, if_neg new, ← ordered.exactly j c]
      split_ifs with parent newParent
      · rw [parent, mem_append, mem_cons, or_iff_right new, ← mem_append, take_append_drop]
      · rw [newParent]
        refine iff_of_false not_mem_nil fun member => ?_
        have := heap.children heap.next c member
        omega
      · rfl
  · rw [link_subkeys, link_nbSubkeys]
    split_ifs with parent new
    · rw [place, slots, length_append, length_cons, ← Nat.add_assoc, ← length_append, take_append_drop]
      exact (lt_grown (by decide) (ordered.fits p) (ordered.slots p)).1
    · exact le_rfl
    · exact ordered.fits j
  · rw [link_nbSubkeys]
    split_ifs with parent new
    · exact .inr (lt_grown (by decide) (ordered.fits p) (ordered.slots p)).2
    · exact .inl rfl
    · exact ordered.slots j

/-! ### Removing a key from its parent -/

section Removal

variable (heap : Heap) (p k i : Nat)

theorem Heap.unname_objName :
    ((heap.unname k).key i).objName = if i = k then none else (heap.key i).objName :=
  apply_ite objName (i = k) _ _

theorem Heap.unname_subkeys : ((heap.unname k).key i).subkeys = (heap.key i).subkeys :=
  part_kept subkeys (by rfl) i

theorem Heap.unname_nbSubkeys : ((heap.unname k).key i).nbSubkeys = (heap.key i).nbSubkeys :=
  part_kept nbSubkeys (by rfl) i

theorem Heap.unname_data : ((heap.unname k).key i).data = (heap.key i).data :=
  part_kept data (by rfl) i

theorem Heap.dropEntry_subkeys :
    ((heap.dropEntry p k).key i).subkeys =
      if i = p then removeSlot (heap.key p).subkeys ((heap.key p).subkeys.idxOf k)
      else (heap.key i).subkeys :=
  apply_ite subkeys (i = p) _ _

theorem Heap.dropEntry_nbSubkeys :
    ((heap.dropEntry p k).key i).nbSubkeys =
      if i = p then shrunk ((heap.key p).subkeys.length - 1) (heap.key p).nbSubkeys minSubkeys
      else (heap.key i).nbSubkeys :=
  apply_ite nbSubkeys (i = p) _ _

theorem Heap.dropEntry_objName : ((heap.dropEntry p k).key i).objName = (heap.key i).objName :=
  part_kept objName (by rfl) i

theorem Heap.dropEntry_data : ((heap.dropEntry p k).key i).data = (heap.key i).data :=
  part_kept data (by rfl) i

end Removal

theorem removeSlot_idxOf {slots : List Nat} (member : k ∈ slots) :
    removeSlot slots (slots.idxOf k) = slots.erase k := by
  obtain ⟨front, back, rfl, fresh⟩ := eq_append_cons_of_mem member
  rw [idxOf_append_of_notMem fresh, idxOf_cons_self, Nat.add_zero, removeSlot, shiftDown_remove,
    erase_append_right _ fresh, erase_cons_head]

/-- What `unlink_named_object` leaves: the key has no name, and its parent's array is without it. -/
structure Unlinked (heap heap' : Heap) (k : Nat) : Prop where
  casemap : heap'.casemap = heap.casemap
  next : heap'.next = heap.next
  objName : ∀ i, (heap'.key i).objName = if i = k then none else (heap.key i).objName
  subkeys : ∀ i, (heap'.key i).subkeys = (heap.key i).subkeys.erase k
  data : ∀ i, (heap'.key i).data = (heap.key i).data
  nbSubkeys : ∀ i, (heap'.key i).nbSubkeys = if k ∈ (heap.key i).subkeys then
    shrunk ((heap.key i).subkeys.length - 1) (heap.key i).nbSubkeys minSubkeys
    else (heap.key i).nbSubkeys

/-- A key that is in the array of its parent and in no other one can be unlinked. -/
theorem Heap.unlinkName_unlinked (exactly : ∀ i, k ∈ (heap.key i).subkeys ↔
    (heap.key k).parent = some i) :
    Returns (heap.unlinkName k) fun heap' => Unlinked heap heap' k := by
  unfold unlinkName
  cases parent : (heap.key k).parent with
  | none =>
    have absent : ∀ i, k ∉ (heap.key i).subkeys := fun i => by
      rw [exactly, parent]
      nofun
    refine ⟨rfl, rfl, heap.unname_objName k, fun i => ?_, heap.unname_data k, fun i => ?_⟩
    · rw [heap.unname_subkeys, erase_of_not_mem (absent i)]
    · rw [heap.unname_nbSubkeys, if_neg (absent i)]
  | some p =>
    have member : k ∈ (heap.key p).subkeys := (exactly p).mpr parent
    have absent : ∀ i, i ≠ p → k ∉ (heap.key i).subkeys := fun i other => by
      rw [exactly, parent]
      exact fun same => other (some.inj same).symm
    dsimp only
    rw [if_pos member]
    refine ⟨rfl, rfl, fun i => ?_, fun i => ?_, fun i => ?_, fun i => ?_⟩
    · rw [dropEntry_objName, heap.unname_objName]
    · rw [dropEntry_subkeys, heap.unname_subkeys, heap.unname_subkeys]
      split
      next same => rw [same, removeSlot_idxOf member]
      next other => rw [erase_of_not_mem (absent i other)]
    · rw [dropEntry_data, heap.unname_data]
    · rw [dropEntry_nbSubkeys, heap.unname_subkeys, heap.unname_nbSubkeys, heap.unname_nbSubkeys]
      split
      next same => rw [same, if_pos member]
      next other => rw [if_neg (absent i other)]

/-- In an ordered heap every key can be unlinked. -/
theorem Ordered.unlinkName (ordered : Ordered heap) (k : Nat) :
    Returns (heap.unlinkName k) fun heap' => Unlinked heap heap' k :=
  heap.unlinkName_unlinked fun i => ordered.exactly i k

theorem Unlinked.parent (unlinked : Unlinked heap heap' k) (i : Nat) :
    (heap'.key i).parent = if i = k then none else (heap.key i).parent := by
  rw [Key.parent, unlinked.objName]
  split <;> rfl

/-- A key that was linked and unlinked again is in no array. -/
theorem Unlinked.subkeys_of_link {older : p < heap.next} {flags : Flags}
    (unlinked : Unlinked (heap.link p older name flags) heap' heap.next)
    (missing : heap.subkey p name = none) (i : Nat) : (heap'.key i).subkeys = (heap.key i).subkeys := by
  have absent := heap.next_notMem_subkeys
  rw [unlinked.subkeys]
  by_cases parent : i = p
  · obtain ⟨index, _, slots⟩ := link_slots older flags missing
    rw [parent, slots, erase_append_right _ fun inFront => absent p (mem_of_mem_take inFront),
      erase_cons_head, take_append_drop]
  · rw [link_subkeys, if_neg parent]
    split
    next new =>
      rw [new]
      refine (eq_nil_iff_forall_not_mem.mpr fun c member => ?_).symm
      have := heap.children heap.next c member
      omega
    next => rw [erase_of_not_mem (absent i)]

theorem Unlinked.fits (unlinked : Unlinked heap heap' k) (ordered : Ordered heap) (i : Nat) :
    (heap'.key i).subkeys.length ≤ (heap'.key i).nbSubkeys ∧
      ((heap'.key i).nbSubkeys = 0 ∨ minSubkeys ≤ (heap'.key i).nbSubkeys) := by
  have fits := ordered.fits i
  rw [unlinked.subkeys, unlinked.nbSubkeys]
  split
  next member =>
    have used := length_pos_of_mem member
    have room := le_shrunk (show (heap.key i).subkeys.length - 1 + 1 ≤ _ by omega) (ordered.slots i)
    rw [length_erase_of_mem member]
    exact ⟨room.1, .inr room.2⟩
  next absent =>
    rw [erase_of_not_mem absent]
    exact ⟨fits, ordered.slots i⟩

theorem Unlinked.ordered (unlinked : Unlinked heap heap' k) (ordered : Ordered heap) :
    Ordered heap' := by
  refine ⟨fun j => ?_, fun j c => ?_, fun j => (unlinked.fits ordered j).1,
    fun j => (unlinked.fits ordered j).2⟩
  · rw [unlinked.casemap, unlinked.subkeys]
    have kept : Ascending heap.casemap (fun c => (heap.key c).name) ((heap.key j).subkeys.erase k) :=
      (ordered.ascending j).sublist erase_sublist
    refine kept.congr fun c member => ?_
    have other : c ≠ k := ((ordered.nodup j).mem_erase_iff.mp member).1
    rw [name, name, unlinked.objName, if_neg other]
  · rw [unlinked.subkeys, unlinked.parent, (ordered.nodup j).mem_erase_iff, ordered.exactly j c]
    split
    next same => simp [same]
    next other => simp [other]

/-! ### Renaming a key -/

/-- The new name comes behind the old one, and no other subkey has it or a name in between. -/
def NextTo (heap : Heap) (k p : Nat) (name : Name) : Prop :=
  folded heap.casemap (heap.key k).name < folded heap.casemap name ∧
    ∀ c ∈ (heap.key p).subkeys, c ≠ k →
      folded heap.casemap (heap.key c).name < folded heap.casemap (heap.key k).name ∨
        folded heap.casemap name < folded heap.casemap (heap.key c).name

/-- The key has the last name of all subkeys, and a slot behind it is allocated. -/
def LastWithRoom (heap : Heap) (k p : Nat) : Prop :=
  (∀ c ∈ (heap.key p).subkeys,
    folded heap.casemap (heap.key c).name ≤ folded heap.casemap (heap.key k).name) ∧
  (heap.key p).subkeys.length < (heap.key p).nbSubkeys

def CarefulRename (heap : Heap) (k : Nat) (name : Name) : Prop :=
  ∀ p, (heap.key k).parent = some p → NextTo heap k p name → LastWithRoom heap k p

/-- What a rename changes: the name of the key, and the order in its parent's array. -/
structure Renamed (heap heap' : Heap) (k : Nat) (name : Name) : Prop where
  casemap : heap'.casemap = heap.casemap
  next : heap'.next = heap.next
  name : ∀ i, (heap'.key i).name = if i = k then name else (heap.key i).name
  parent : ∀ i, (heap'.key i).parent = (heap.key i).parent
  subkeys : ∀ i, (heap'.key i).subkeys.Perm (heap.key i).subkeys
  others : ∀ i, (heap'.key i).subkeys.erase k = (heap.key i).subkeys.erase k
  data : ∀ i, (heap'.key i).data = (heap.key i).data

section Relabel

variable (slots : List Nat) (parent : (heap.key k).parent = some p)
  (entries : ∀ c ∈ slots, c ∈ (heap.key p).subkeys ∨ c = k) (i : Nat)

theorem Heap.relabel_objName :
    ((heap.relabel k p name slots parent entries).key i).objName =
      if i = k then some ⟨name, some p⟩ else (heap.key i).objName := by
  simp only [relabel, set]
  split
  next => rfl
  next =>
    split
    next same => rw [same]
    next => rfl

theorem Heap.relabel_subkeys :
    ((heap.relabel k p name slots parent entries).key i).subkeys =
      if i = p then slots else (heap.key i).subkeys := by
  have older := (heap.linked k p parent).1
  simp only [relabel, set]
  split
  next same => rw [if_neg (by omega), same]
  next => split <;> rfl

theorem Heap.relabel_nbSubkeys :
    ((heap.relabel k p name slots parent entries).key i).nbSubkeys = (heap.key i).nbSubkeys := by
  refine (part_kept nbSubkeys ?_ i).trans (part_kept nbSubkeys (by rfl) i)
  exact (part_kept nbSubkeys (by rfl) k).symm

theorem Heap.relabel_data :
    ((heap.relabel k p name slots parent entries).key i).data = (heap.key i).data := by
  refine (part_kept data ?_ i).trans (part_kept data (by rfl) i)
  exact (part_kept data (by rfl) k).symm

end Relabel

/-- A new name with a rearranged array of the parent, in which the key stands where the new name
belongs. -/
theorem Ordered.relabel (ordered : Ordered heap) (parent : (heap.key k).parent = some p) (entries)
    (same : (front ++ k :: back).Perm (heap.key p).subkeys)
    (rest : front ++ back = (heap.key p).subkeys.erase k)
    (smaller : ∀ c ∈ front, folded heap.casemap (heap.key c).name < folded heap.casemap name)
    (larger : ∀ c ∈ back, folded heap.casemap name < folded heap.casemap (heap.key c).name) :
    Ordered (heap.relabel k p name (front ++ k :: back) parent entries) ∧
      Renamed heap (heap.relabel k p name (front ++ k :: back) parent entries) k name := by
  have names : ∀ i, ((heap.relabel k p name (front ++ k :: back) parent entries).key i).name =
      if i = k then name else (heap.key i).name := by
    intro i
    rw [Key.name, relabel_objName]
    split <;> rfl
  have parents : ∀ i, ((heap.relabel k p name (front ++ k :: back) parent entries).key i).parent =
      (heap.key i).parent := by
    intro i
    rw [Key.parent, relabel_objName]
    split
    next self => rw [self, parent]; rfl
    next => rfl
  have perm : ∀ i, ((heap.relabel k p name (front ++ k :: back) parent entries).key i).subkeys.Perm
      (heap.key i).subkeys := by
    intro i
    rw [relabel_subkeys]
    split
    next self => rw [self]; exact same
    next => exact List.Perm.refl _
  have fresh : k ∉ front ++ back := by
    have nodup := same.nodup_iff.mpr (ordered.nodup p)
    rw [nodup_middle, nodup_cons] at nodup
    exact nodup.1
  have others : ∀ c ∈ front ++ back, c ≠ k := fun c member same => fresh (same ▸ member)
  have ascending : Ascending heap.casemap (fun c => (heap.key c).name) (front ++ back) := by
    rw [rest]
    exact (ordered.ascending p).sublist erase_sublist
  refine ⟨⟨fun j => ?_, fun j c => ?_, fun j => ?_, fun j => ?_⟩, rfl, rfl, names, parents, perm,
    fun j => ?_, relabel_data _ parent entries⟩
  · rw [relabel_subkeys]
    split
    next =>
      refine Ascending.insert (ascending.congr fun c member => ?_) (fun c inFront => ?_) fun c behind => ?_
      · rw [names, if_neg (others c member)]
      · rw [names, names, if_pos rfl, if_neg (others c (mem_append_left _ inFront))]
        exact smaller c inFront
      · rw [names, names, if_pos rfl, if_neg (others c (mem_append_right _ behind))]
        exact larger c behind
    next elsewhere =>
      refine (ordered.ascending j).congr fun c member => ?_
      have child := (ordered.exactly j c).mp member
      rw [names, if_neg]
      rintro rfl
      exact elsewhere (some.inj (child.symm.trans parent))
  · rw [(perm j).mem_iff, parents]
    exact ordered.exactly j c
  · rw [(perm j).length_eq, relabel_nbSubkeys]
    exact ordered.fits j
  · rw [relabel_nbSubkeys]
    exact ordered.slots j
  · rw [relabel_subkeys]
    split
    next self => rw [self, erase_append_right _ fun inFront =>
      fresh (mem_append_left _ inFront), erase_cons_head, rest]
    next => rfl

/-- The outcomes of a careful rename. -/
inductive Renaming (heap : Heap) (k : Nat) (name : Name) : Heap × Option Status → Prop
  | same (status : Status) : Renaming heap k name (heap, some status)
  | moved (p : Nat) (mid : Heap) (parent : (heap.key k).parent = some p) (ordered : Ordered mid)
      (renamed : Renamed heap mid k name) : Renaming heap k name (mid.makeDirty k, none)

/-- In a careful rename, the slot right behind the key's old one is not in use. -/
theorem CarefulRename.aside (careful : CarefulRename heap k name) (ordered : Ordered heap)
    (parent : (heap.key k).parent = some p) (gap : heap.findSubkey p name = .gap index)
    (cut : (heap.key p).subkeys = front ++ k :: back) (near : index = front.length + 1) :
    back = [] ∧ (front ++ k :: back).length < (heap.key p).nbSubkeys := by
  have ascending := ordered.ascending p
  obtain ⟨_, smaller, larger⟩ := findName_gap ascending gap
  have takes : (front ++ k :: back).take index = front ++ [k] := by
    rw [near, take_append, take_of_length_le (by omega)]
    simp
  have drops : (front ++ k :: back).drop index = back := by simp [near]
  rw [cut, takes] at smaller
  rw [cut, drops] at larger
  rw [cut] at ascending
  obtain ⟨_, behind, cross⟩ := pairwise_append.mp ascending
  have nextTo : NextTo heap k p name := by
    refine ⟨smaller k (by simp), fun c inParent other => ?_⟩
    rw [cut, mem_append, mem_cons] at inParent
    rcases inParent with inFront | self | inBack
    · exact .inl (cross c inFront k mem_cons_self)
    · exact absurd self other
    · exact .inr (larger c inBack)
  obtain ⟨last, room⟩ := careful p parent nextTo
  rw [cut] at last room
  refine ⟨eq_nil_iff_forall_not_mem.mpr fun c inBack => ?_, room⟩
  have after := (pairwise_cons.mp behind).1 c inBack
  exact absurd after (not_lt.mpr (last c (mem_append_right _ (mem_cons_of_mem _ inBack))))

/-- **A careful rename** keeps the arrays in order. -/
theorem Ordered.renameKey (ordered : Ordered heap) (careful : CarefulRename heap k name) :
    Returns (heap.renameKey k name) (Renaming heap k name) := by
  unfold Heap.renameKey
  dsimp only
  split
  · exact .same _
  split
  · exact .same _
  next p parent =>
  split
  · exact .same _
  next index gap =>
  split
  · exact .same _
  have member : k ∈ (heap.key p).subkeys := (ordered.exactly p k).mpr parent
  obtain ⟨front, back, cut, fresh⟩ := eq_append_cons_of_mem member
  obtain ⟨bound, smaller, larger⟩ := findName_gap (ordered.ascending p) gap
  have fits := ordered.fits p
  have aside := careful.aside ordered parent gap cut
  rw [cut] at bound smaller larger fits
  obtain ⟨front', back', moved, sameRest, small, large⟩ := moveSlot_eq fresh bound fits aside
  have rest : front' ++ back' = (heap.key p).subkeys.erase k := by
    rw [sameRest, cut, erase_append_right _ fresh, erase_cons_head]
  have perm : (front' ++ k :: back').Perm (heap.key p).subkeys := by
    rw [cut]
    refine perm_middle.trans ?_
    rw [sameRest]
    exact perm_middle.symm
  split
  next fault failed =>
    rw [cut, moved] at failed
    cases failed
  next slots done =>
    obtain rfl : front' ++ k :: back' = slots := by
      rw [cut, moved] at done
      exact Except.ok.inj done
    obtain ⟨ordered', renamed⟩ := ordered.relabel parent (fun _ => mem_moveSlot done) perm rest
      (fun c first => smaller c (small c first)) (fun c last => larger c (large c last))
    exact .moved p _ parent ordered' renamed

end Keys

end FreeWindows.Registry
