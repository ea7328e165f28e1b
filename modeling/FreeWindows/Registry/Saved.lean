/-
**What requests do to saved branches.**

A branch whose root is clean is not saved again, so its file has to hold its content, and a change
within it has to make it dirty: `Synced` says the first, and each change of the keys keeps it if the
key that it changes, or the parent of that key, is then marked (`Synced.marked`). Creating a key marks
its parent only if the parent is given (`Synced.keyCreation`); files are loaded while no key is clean
(`AllDirty`), as at the start of the server.
-/

import FreeWindows.Registry.Dirty
import FreeWindows.Registry.Runs

namespace FreeWindows.Registry

open Lib List Option Heap Key

/-- The rules for the keys, and that the files of clean branches hold their content. -/
structure Synced (branches : List Nat) (saved : Nat → Option (List UInt8)) (heap : Heap) : Prop where
  ordered : Ordered heap
  upward : Upward heap
  apart : ∀ k, (heap.key k).flags.dirty = true → (heap.key k).flags.volatile = false
  roots : ∀ b ∈ branches, b < heap.next ∧ (heap.key b).flags.volatile = false
  unnested : ∀ b ∈ branches, ∀ b' ∈ branches, b' ≠ b → ¬Within heap b b'
  files : ∀ b ∈ branches, (heap.key b).flags.dirty = false →
    ∃ old modif arch, saved b = some (old.saveAllSubkeys modif arch b) ∧ Ordered old ∧
      (old.key b).flags.volatile = false ∧ KeptWithin old heap b

/-- Keys get no other parents, and volatile keys stay volatile. -/
structure Extends (heap heap' : Heap) : Prop where
  next : heap.next ≤ heap'.next
  parent : ∀ k, k < heap.next → ∀ p, (heap'.key k).parent = some p → (heap.key k).parent = some p
  volatile : ∀ k, k < heap.next → (heap'.key k).flags.volatile = (heap.key k).flags.volatile

section Changes

variable {heap heap' heap'' : Heap} {branches : List Nat} {saved : Nat → Option (List UInt8)}
  {b k p : Nat}

theorem Extends.trans (first : Extends heap heap') (second : Extends heap' heap'') :
    Extends heap heap'' := by
  refine ⟨le_trans first.next second.next, fun k old p parent => ?_, fun k old => ?_⟩
  · exact first.parent k old p (second.parent k (lt_of_lt_of_le old first.next) p parent)
  · exact (second.volatile k (lt_of_lt_of_le old first.next)).trans (first.volatile k old)

theorem OnlyDirty.extends (only : OnlyDirty heap heap') : Extends heap heap' :=
  ⟨le_of_eq only.next.symm, fun k _ _ parent => (only.parent k).symm.trans parent,
    fun k _ => only.volatile k⟩

/-- **A change of the keys** is in order if branches that are clean afterwards have their content of
before. -/
theorem Synced.change (synced : Synced branches saved heap) (ordered : Ordered heap')
    (upward : Upward heap')
    (apart : ∀ k, (heap'.key k).flags.dirty = true → (heap'.key k).flags.volatile = false)
    (grown : Extends heap heap') (content : ∀ b, b < heap.next → (heap.key b).flags.volatile = false →
      (heap'.key b).flags.dirty = false →
      (heap.key b).flags.dirty = false ∧ KeptWithin heap heap' b) :
    Synced branches saved heap' := by
  refine ⟨ordered, upward, apart, fun b member => ?_, fun b member b' member' other inside => ?_,
    fun b member clean => ?_⟩
  · obtain ⟨old, nonvolatile⟩ := synced.roots b member
    exact ⟨lt_of_lt_of_le old grown.next, (grown.volatile b old).trans nonvolatile⟩
  · obtain ⟨old, _⟩ := synced.roots b' member'
    refine synced.unnested b member b' member' other (inside.transport fun i le p parent vol => ?_)
    have oldI : i < heap.next := lt_of_le_of_lt le old
    exact ⟨grown.parent i oldI p parent, (grown.volatile i oldI).symm.trans vol⟩
  · obtain ⟨old, nonvolatile⟩ := synced.roots b member
    obtain ⟨before, same⟩ := content b old nonvolatile clean
    obtain ⟨file, modif, arch, text, ordered, root, kept⟩ := synced.files b member before
    exact ⟨file, modif, arch, text, ordered, root, kept.trans ordered synced.ordered same⟩

variable {t : Nat} {attr : Attributes} {out : Heap × Except Status Opened} {parent : Option Nat}

/-! ### Changes that are not saved -/

/-- What matters for saving, besides the place in the tree. -/
def marks (key : Key) : Bool × Bool × Bool × List KeyValue :=
  (key.flags.dirty, key.flags.volatile, key.flags.symlink, key.values)

theorem savedSubkeys_congr (subkeys : (heap'.key k).subkeys = (heap.key k).subkeys)
    (volatile : ∀ c, c < heap.next → (heap'.key c).flags.volatile = (heap.key c).flags.volatile) :
    savedSubkeys heap' k = savedSubkeys heap k := by
  rw [savedSubkeys, savedSubkeys, subkeys]
  exact filter_congr fun c member => by rw [volatile c (heap.children k c member).2]

/-! ### Marked changes -/

theorem apart_makeDirty (apart : ∀ k, (heap.key k).flags.dirty = true →
    (heap.key k).flags.volatile = false) (t k : Nat)
    (dirty : ((heap.makeDirty t).key k).flags.dirty = true) :
    ((heap.makeDirty t).key k).flags.volatile = false := by
  have set : ∀ (heap : Heap) (t : Nat), ¬((heap.key t).flags.dirty = true ∨
        (heap.key t).flags.volatile = true) →
      (∀ k, (heap.key k).flags.dirty = true → (heap.key k).flags.volatile = false) → ∀ k,
      ((heap.setFlags t fun flags => { flags with dirty := true }).key k).flags.dirty = true →
      ((heap.setFlags t fun flags => { flags with dirty := true }).key k).flags.volatile = false := by
    intro heap t clean apart k dirty
    rw [setDirty_dirty] at dirty
    rw [(heap.setDirty_onlyDirty t true).volatile]
    split at dirty
    next self => exact self ▸ Bool.eq_false_iff.mpr fun volatile => clean (.inr volatile)
    next => exact apart k dirty
  fun_induction makeDirty heap t with
  | case1 => exact apart k dirty
  | case2 heap t clean => exact set heap t clean apart k dirty
  | case3 heap t clean _ p _ ih => exact ih (set heap t clean apart) dirty

theorem Synced.makeDirty (synced : Synced branches saved heap) (t : Nat) :
    Synced branches saved (heap.makeDirty t) := by
  have only := heap.makeDirty_onlyDirty t
  refine synced.change (only.ordered synced.ordered) (synced.upward.makeDirty t)
    (apart_makeDirty synced.apart t) only.extends fun b _ _ clean => ⟨?_, ?_⟩
  · exact Bool.eq_false_iff.mpr fun dirty => by
      rw [heap.makeDirty_mono t b dirty] at clean
      cases clean
  · exact only.keptWithin b

variable {mid : Heap} {i : Nat} {name : Name} {options : Options}

/-- **A change that is marked**: what is changed in a branch is at a key, or at one below it, that is
then made dirty. -/
theorem Synced.marked (synced : Synced branches saved heap) (ordered : Ordered mid)
    (nearly : ∀ c p, (mid.key c).parent = some p → (mid.key c).flags.dirty = true →
      p = t ∨ (mid.key p).flags.dirty = true ∨ (mid.key p).flags.volatile = true)
    (apart : ∀ k, (mid.key k).flags.dirty = true → (mid.key k).flags.volatile = false)
    (grown : Extends heap mid)
    (dirty : ∀ b, b < heap.next → (heap.key b).flags.dirty = true → (mid.key b).flags.dirty = true)
    (path : ∀ b, Within heap b t → Within mid b t)
    (kept : ∀ b, b < heap.next → (heap.key b).flags.volatile = false → ¬Within heap b t → ∀ i,
      Within heap b i → KeptAt heap mid i ∧ (i ≠ b → (mid.key i).name = (heap.key i).name)) :
    Synced branches saved (mid.makeDirty t) := by
  have only := mid.makeDirty_onlyDirty t
  have upward := makeDirty_upward mid t nearly
  have marked : ((mid.makeDirty t).key t).flags.dirty = true ∨
      ((mid.makeDirty t).key t).flags.volatile = true :=
    (mid.makeDirty_self t).imp_right (only.volatile t).trans
  refine synced.change (only.ordered ordered) upward (apart_makeDirty apart t)
    (grown.trans only.extends) fun b old nonvolatile clean => ⟨?_, ?_⟩
  · exact Bool.eq_false_iff.mpr fun before => by
      rw [mid.makeDirty_mono t b (dirty b old before)] at clean
      cases clean
  · have nonvolatile' := (only.volatile b).trans ((grown.volatile b old).trans nonvolatile)
    -- the marked key is not in the branch, for the root would be dirty too
    have outside : ¬Within heap b t := fun inside => by
      have inside' := only.within (path b inside)
      have nonvolatileT := inside'.nonvolatile nonvolatile'
      have dirty := inside'.dirty upward nonvolatile' (marked.resolve_right (by rw [nonvolatileT]; decide))
      rw [clean] at dirty
      cases dirty
    intro i inside
    obtain ⟨keptHere, name⟩ := kept b old nonvolatile outside i inside
    exact ⟨keptHere.trans (only.keptAt i), fun notRoot => (only.name i).trans (name notRoot)⟩

/-- The flags stay as they are, and so do the parents up to the key that is marked. -/
theorem Synced.marked_of_flags (synced : Synced branches saved heap) (ordered : Ordered mid)
    (flags : ∀ i, (mid.key i).flags = (heap.key i).flags) (next : mid.next = heap.next)
    (parents : ∀ i q, (mid.key i).parent = some q → (heap.key i).parent = some q)
    (path : ∀ i, i ≤ t → (mid.key i).parent = (heap.key i).parent)
    (kept : ∀ b, ¬Within heap b t → ∀ i, Within heap b i →
      KeptAt heap mid i ∧ (i ≠ b → (mid.key i).name = (heap.key i).name)) :
    Synced branches saved (mid.makeDirty t) := by
  refine synced.marked ordered (fun c p parent dirty => ?_) (fun i dirty => ?_)
    ⟨le_of_eq next.symm, fun i _ => parents i, fun i _ => by rw [flags]⟩ (fun i _ dirty => ?_)
    (fun b inside => ?_) fun b _ _ => kept b
  · rw [flags] at dirty ⊢
    exact .inr (synced.upward c p (parents c p parent) dirty)
  · rw [flags] at dirty ⊢
    exact synced.apart i dirty
  · rw [flags]
    exact dirty
  · refine inside.transport fun i le q parent nonvolatile => ?_
    rw [path i le, flags]
    exact ⟨parent, nonvolatile⟩

/-! ### Requests -/

theorem Heap.setValues_flags (heap : Heap) (k : Nat) (values : List KeyValue) (nbValues i : Nat) :
    ((heap.setValues k values nbValues).key i).flags = (heap.key i).flags :=
  heap.modify_kept k flags (fun _ => by rfl) i

theorem Synced.onValues (synced : Synced branches saved heap) (values : OnValues heap k heap') :
    Synced branches saved heap' := by
  rcases values with rfl | ⟨values, nbValues, rfl⟩
  · exact synced
  have same := heap.setValues_sameTree k values nbValues
  have flags := heap.setValues_flags k values nbValues
  refine synced.marked_of_flags (same.ordered synced.ordered) flags rfl
    (fun i q parent => (same.parent i).symm.trans parent) (fun i _ => same.parent i)
    fun b outside i inside => ⟨⟨?_, ?_, ?_, ?_⟩, ?_⟩
  · rw [flags]
  · rw [Heap.setValues, Heap.modify, Heap.set_key, if_neg fun self : i = k => outside (self ▸ inside)]
  · exact savedSubkeys_congr (same.subkeys i) fun c _ => by rw [flags]
  · exact (same.subkeys i).symm.trans
  · exact fun _ => same.name i

theorem Within.lt (inside : Within heap b k) (old : b < heap.next) : k < heap.next := by
  cases inside with
  | self => exact old
  | child _ parent _ => exact (heap.linked _ _ parent).2

/-- Keys that are not saved come in; the others are as they were. -/
theorem Synced.besides (synced : Synced branches saved heap) (ordered : Ordered heap')
    (next : heap.next ≤ heap'.next)
    (names : ∀ i, i < heap.next → (heap'.key i).objName = (heap.key i).objName)
    (same : ∀ i, i < heap.next → marks (heap'.key i) = marks (heap.key i))
    (subkeys : ∀ i, i < heap.next → savedSubkeys heap' i = savedSubkeys heap i ∧
      ((heap'.key i).subkeys = [] → (heap.key i).subkeys = []))
    (fresh : ∀ i, heap.next ≤ i → (heap'.key i).flags.dirty = true →
      (heap'.key i).flags.volatile = false ∧ (heap'.key i).parent = none) :
    Synced branches saved heap' := by
  have parents : ∀ i, i < heap.next → (heap'.key i).parent = (heap.key i).parent := fun i old => by
    rw [parent, parent, names i old]
  have dirty : ∀ i, i < heap.next → (heap'.key i).flags.dirty = (heap.key i).flags.dirty :=
    fun i old => congrArg (·.1) (same i old)
  have volatile : ∀ i, i < heap.next → (heap'.key i).flags.volatile = (heap.key i).flags.volatile :=
    fun i old => congrArg (·.2.1) (same i old)
  refine synced.change ordered (fun c p parent isDirty => ?_) (fun i isDirty => ?_)
    ⟨next, fun i old p parent => (parents i old).symm.trans parent, volatile⟩
    fun b old nonvolatile clean => ⟨(dirty b old).symm.trans clean, ?_⟩
  · by_cases old : c < heap.next
    · rw [parents c old] at parent
      rw [dirty c old] at isDirty
      have older := heap.linked c p parent
      rw [dirty p (by omega), volatile p (by omega)]
      exact synced.upward c p parent isDirty
    · rw [(fresh c (not_lt.mp old) isDirty).2] at parent
      cases parent
  · by_cases old : i < heap.next
    · rw [volatile i old]
      rw [dirty i old] at isDirty
      exact synced.apart i isDirty
    · exact (fresh i (not_lt.mp old) isDirty).1
  · intro i inside
    have oldI := inside.lt old
    obtain ⟨saved, bare⟩ := subkeys i oldI
    refine ⟨⟨congrArg (·.2.2.1) (same i oldI), congrArg (·.2.2.2) (same i oldI), saved, bare⟩,
      fun _ => ?_⟩
    rw [name, name, names i oldI]

/-- Nothing that matters for saving is changed. -/
theorem Synced.steady (synced : Synced branches saved heap) (same : SameTree heap heap')
    (kept : ∀ i, marks (heap'.key i) = marks (heap.key i)) : Synced branches saved heap' := by
  refine synced.besides (same.ordered synced.ordered) (le_of_eq same.next.symm) (fun i _ => same.objName i)
    (fun i _ => kept i) (fun i _ => ⟨?_, (same.subkeys i).symm.trans⟩) fun i new dirty => ⟨?_, ?_⟩
  · exact savedSubkeys_congr (same.subkeys i) fun c _ => congrArg (·.2.1) (kept c)
  · have before := synced.apart i ((congrArg (·.1) (kept i)).symm.trans dirty)
    exact (congrArg (·.2.1) (kept i)).trans before
  · exact (same.parent i).trans (parent_of_fresh heap new)

theorem Synced.setFlags (synced : Synced branches saved heap) (k : Nat) (change : Flags → Flags)
    (keeps : ∀ key : Key, marks { key with flags := change key.flags } = marks key) :
    Synced branches saved (heap.setFlags k change) :=
  synced.steady (heap.setFlags_sameTree k change) (heap.modify_kept k marks keeps)

section Link

variable (older : p < heap.next) (name : Name) (flags : Flags)

theorem Heap.link_marks (notNew : i ≠ heap.next) :
    marks ((heap.link p older name flags).key i) = marks (heap.key i) := by
  have data := link_data older name flags i
  rw [if_neg notNew] at data
  exact congrArg (fun d : KeyData => (d.flags.dirty, d.flags.volatile, d.flags.symlink, d.values)) data

theorem Heap.link_new_flags : ((heap.link p older name flags).key heap.next).flags = flags := by
  rw [link_new]

theorem Heap.link_volatile (old : i < heap.next) :
    ((heap.link p older name flags).key i).flags.volatile = (heap.key i).flags.volatile :=
  congrArg (·.2.1) (link_marks older name flags (ne_of_lt old))

theorem link_savedSubkeys (old : i < heap.next) (other : i ≠ p) :
    savedSubkeys (heap.link p older name flags) i = savedSubkeys heap i := by
  refine savedSubkeys_congr ?_ fun c => link_volatile older name flags
  rw [link_subkeys, if_neg other, if_neg (ne_of_lt old)]

variable {older name flags}

theorem link_savedSubkeys_volatile (missing : heap.subkey p name = none)
    (volatile : flags.volatile = true) :
    savedSubkeys (heap.link p older name flags) p = savedSubkeys heap p := by
  obtain ⟨index, _, slots⟩ := link_slots older flags missing
  have rest : ∀ c ∈ (heap.key p).subkeys,
      (!((heap.link p older name flags).key c).flags.volatile) = !(heap.key c).flags.volatile :=
    fun c member => by rw [link_volatile older name flags (heap.children p c member).2]
  rw [savedSubkeys, savedSubkeys, slots, filter_append, filter_cons_of_neg,
    ← filter_append, take_append_drop]
  · exact filter_congr rest
  · rw [link_new_flags, volatile]
    decide

variable (synced : Synced branches saved heap)
include synced

/-- Of the keys that were not created yet, none is linked. -/
theorem Synced.fresh_link (new : heap.next ≤ i) (other : i ≠ heap.next)
    (dirty : ((heap.link p older name flags).key i).flags.dirty = true) :
    ((heap.link p older name flags).key i).flags.volatile = false ∧
      ((heap.link p older name flags).key i).parent = none := by
  have same := link_marks older name flags other
  have before : (heap.key i).flags.dirty = true := (congrArg (·.1) same).symm.trans dirty
  refine ⟨(congrArg (·.2.1) same).trans (synced.apart i before), ?_⟩
  rw [link_parent, if_neg other, parent_of_fresh heap new]

variable (missing : heap.subkey p name = none)
include missing

theorem Synced.link_volatile (volatile : options.volatile = true) :
    Synced branches saved (heap.link p older name (newFlags options)) := by
  refine synced.besides (synced.ordered.link older _ missing) (Nat.le_succ _) (fun i old => ?_)
    (fun i old => link_marks older name _ (ne_of_lt old)) (fun i old => ?_)
    fun i new dirty => ?_
  · rw [link_objName, if_neg (ne_of_lt old)]
  · by_cases parent : i = p
    · rw [parent]
      refine ⟨link_savedSubkeys_volatile missing volatile, fun empty => ?_⟩
      obtain ⟨index, _, slots⟩ := link_slots older (newFlags options) missing
      rw [slots] at empty
      simp at empty
    · refine ⟨link_savedSubkeys older name _ old parent, fun empty => ?_⟩
      rwa [link_subkeys, if_neg parent, if_neg (ne_of_lt old)] at empty
  · by_cases self : i = heap.next
    · rw [self, link_new_flags, newFlags, volatile] at dirty
      cases dirty
    · exact synced.fresh_link new self dirty

/-- A key is created, and its parent is marked. -/
theorem Synced.link_marked :
    Synced branches saved ((heap.link p older name (newFlags options)).makeDirty p) := by
  have same := fun i => link_marks (i := i) older name (newFlags options)
  have dirty : ∀ i, i ≠ heap.next → ((heap.link p older name (newFlags options)).key i).flags.dirty =
      (heap.key i).flags.dirty := fun i other => congrArg (·.1) (same i other)
  have volatile : ∀ i, i ≠ heap.next →
      ((heap.link p older name (newFlags options)).key i).flags.volatile =
        (heap.key i).flags.volatile := fun i other => congrArg (·.2.1) (same i other)
  have parents := link_parent older name (newFlags options)
  refine synced.marked (synced.ordered.link older _ missing) (fun c q parent isDirty => ?_)
    (fun i isDirty => ?_) ⟨Nat.le_succ _, fun i old q parent => ?_,
      fun i old => volatile i (ne_of_lt old)⟩ (fun i old isDirty => ?_)
    (fun b inside => ?_) fun b old nonvolatile outside i inside => ?_
  · rw [parents] at parent
    split at parent
    next => exact .inl (some.inj parent).symm
    next notNew =>
      have lt := heap.linked c q parent
      rw [dirty c notNew] at isDirty
      rw [dirty q (by omega), volatile q (by omega)]
      exact .inr (synced.upward c q parent isDirty)
  · by_cases new : i = heap.next
    · rw [new, link_new_flags] at isDirty ⊢
      exact Bool.not_eq_true' _ ▸ isDirty
    · rw [dirty i new] at isDirty
      rw [volatile i new]
      exact synced.apart i isDirty
  · rw [parents, if_neg (ne_of_lt old)] at parent
    exact parent
  · rw [dirty i (ne_of_lt old)]
    exact isDirty
  · refine inside.transport fun i le q parent nonvolatile => ?_
    have notNew : i ≠ heap.next := by omega
    exact ⟨by rw [parents, if_neg notNew, parent], (volatile i notNew).trans nonvolatile⟩
  · have oldI := inside.lt old
    have notNew := ne_of_lt oldI
    have other : i ≠ p := fun self => outside (self ▸ inside)
    refine ⟨⟨congrArg (·.2.2.1) (same i notNew), congrArg (·.2.2.2) (same i notNew),
      link_savedSubkeys older name _ oldI other, fun empty => ?_⟩, fun _ => ?_⟩
    · rwa [link_subkeys, if_neg other, if_neg notNew] at empty
    · rw [Key.name, Key.name, link_objName, if_neg notNew]

theorem Synced.refused
    (unlinked : Unlinked (heap.link p older name (newFlags options)) heap' heap.next) :
    Synced branches saved heap' := by
  have linked := synced.ordered.link older (newFlags options) missing
  have same : ∀ i, i ≠ heap.next → marks (heap'.key i) = marks (heap.key i) := fun i other =>
    (congrArg (fun d : KeyData => (d.flags.dirty, d.flags.volatile, d.flags.symlink, d.values))
      (unlinked.data i)).trans (link_marks older name _ other)
  refine synced.besides (unlinked.ordered linked) ?_ (fun i old => ?_)
    (fun i old => same i (ne_of_lt old)) (fun i old => ?_) fun i new dirty => ?_
  · rw [unlinked.next]
    exact Nat.le_succ _
  · rw [unlinked.objName, if_neg (ne_of_lt old), link_objName, if_neg (ne_of_lt old)]
  · have slots := unlinked.subkeys_of_link missing i
    exact ⟨savedSubkeys_congr slots fun c oldC => congrArg (·.2.1) (same c (ne_of_lt oldC)),
      slots.symm.trans⟩
  · have flags : (heap'.key i).flags = ((heap.link p older name (newFlags options)).key i).flags :=
      congrArg (·.flags) (unlinked.data i)
    rw [flags] at dirty ⊢
    rw [unlinked.parent]
    split
    next self =>
      rw [self, link_new_flags] at dirty ⊢
      exact ⟨Bool.not_eq_true' _ ▸ dirty, rfl⟩
    next other => exact synced.fresh_link new other dirty

end Link

/-- A key is unlinked, and its parent is marked. -/
theorem Synced.unlinked (synced : Synced branches saved heap) (unlinked : Unlinked heap mid k)
    (parent : (heap.key k).parent = some p) : Synced branches saved (mid.makeDirty p) := by
  have flags : ∀ i, (mid.key i).flags = (heap.key i).flags := fun i =>
    congrArg (·.flags) (unlinked.data i)
  have younger := (heap.linked k p parent).1
  have kept : ∀ i q, (mid.key i).parent = some q → (heap.key i).parent = some q := by
    intro i q own
    rw [unlinked.parent] at own
    split at own
    · cases own
    · exact own
  refine synced.marked_of_flags (unlinked.ordered synced.ordered) flags unlinked.next kept (fun i le => ?_)
    fun b outside i inside => ?_
  · rw [unlinked.parent, if_neg (by omega)]
  · have absent : k ∉ (heap.key i).subkeys := fun member => by
      have above := (synced.ordered.exactly i k).mp member
      rw [parent] at above
      exact outside (some.inj above ▸ inside)
    have slots : (mid.key i).subkeys = (heap.key i).subkeys := by
      rw [unlinked.subkeys, erase_of_not_mem absent]
    refine ⟨⟨by rw [flags], congrArg (·.values) (unlinked.data i),
      savedSubkeys_congr slots fun c _ => by rw [flags], slots.symm.trans⟩, fun notRoot => ?_⟩
    · have other : i ≠ k := by
        rintro rfl
        cases inside with
        | self => exact notRoot rfl
        | child above own _ =>
          rw [parent] at own
          exact outside (some.inj own ▸ above)
      rw [name, name, unlinked.objName, if_neg other]

theorem filter_erase_of_false {f : Nat → Bool} (no : f k = false) (slots : List Nat) :
    (slots.erase k).filter f = slots.filter f := by
  induction slots with
  | nil => rfl
  | cons c rest ih =>
    rw [erase_cons]
    split
    next self => rw [filter_cons_of_neg (by rw [eq_of_beq self, no]; decide)]
    next => rw [filter_cons, filter_cons, ih]

/-- A key is renamed and marked. A volatile key moves among the subkeys that are not saved. -/
theorem Synced.renamed (synced : Synced branches saved heap) (ordered : Ordered mid)
    (renamed : Renamed heap mid k name) (parent : (heap.key k).parent = some p) :
    Synced branches saved (mid.makeDirty k) := by
  have flags : ∀ i, (mid.key i).flags = (heap.key i).flags := fun i =>
    congrArg (·.flags) (renamed.data i)
  refine synced.marked_of_flags ordered flags renamed.next (fun i q own => (renamed.parent i).symm.trans own)
    (fun i _ => renamed.parent i) fun b outside i inside => ?_
  · have notSaved : k ∈ (heap.key i).subkeys → (heap.key k).flags.volatile = true := fun member => by
      refine Bool.not_eq_false _ ▸ fun nonvolatile => outside ?_
      exact .child inside ((synced.ordered.exactly i k).mp member) nonvolatile
    refine ⟨⟨by rw [flags], congrArg (·.values) (renamed.data i), ?_, fun empty => ?_⟩, fun _ => ?_⟩
    · rw [savedSubkeys, savedSubkeys]
      simp only [flags]
      by_cases member : k ∈ (heap.key i).subkeys
      · have no : (!(heap.key k).flags.volatile) = false := by rw [notSaved member]; rfl
        rw [← filter_erase_of_false no (mid.key i).subkeys, renamed.others, filter_erase_of_false no]
      · have member' : k ∉ (mid.key i).subkeys := fun inMid =>
          member ((renamed.subkeys i).mem_iff.mp inMid)
        rw [← erase_of_not_mem member', renamed.others, erase_of_not_mem member]
    · exact (empty ▸ renamed.subkeys i).nil_eq.symm
    · rw [renamed.name, if_neg]
      rintro rfl
      exact outside inside

section Created

variable (synced : Synced branches saved heap)
include synced

/-- A key is created below a key that is marked already. -/
theorem Synced.link_unmarked {older : p < heap.next} (missing : heap.subkey p name = none)
    (marked : (heap.key p).flags.dirty = true ∨ (heap.key p).flags.volatile = true) :
    Synced branches saved (heap.link p older name (newFlags options)) := by
  have same := Heap.link_marks older name (newFlags options) (ne_of_lt older)
  have marked' := marked.imp (congrArg (·.1) same).trans (congrArg (·.2.1) same).trans
  have linked : Synced branches saved ((heap.link p older _ (newFlags options)).makeDirty p) :=
    synced.link_marked missing
  unfold Heap.makeDirty at linked
  split_ifs at linked with clean
  · exact linked
  · exact absurd marked' clean

theorem Synced.keyCreation (creation : KeyCreation heap parent name attr options out)
    (absolute : parent = none → ∀ p new, Vacant heap parent name attr p new →
      options.volatile = true ∨ (heap.key p).flags.dirty = true ∨
        (heap.key p).flags.volatile = true) : Synced branches saved out.1 := by
  cases creation with
  | same => exact synced
  | touched q => exact synced.makeDirty q
  | linked p new none vacant =>
    rcases absolute none p new vacant with volatile | marked
    · exact synced.link_volatile vacant.missing.missing volatile
    · exact synced.link_unmarked vacant.missing.missing marked
  | created p new given vacant allowed => exact synced.link_marked vacant.missing.missing
  | refused p new heap' vacant _ _ _ unlinked =>
    exact synced.refused vacant.missing.missing unlinked

theorem Synced.deleteKey (rounds : Nat) (recurse : Bool) :
    Yields (heap.deleteKey rounds recurse k) fun out =>
      Synced branches saved out.1 := by
  refine deleteKey_keeps trivial (fun heap k p synced parent => ?_) rounds recurse synced
  have same := heap.setFlags_sameTree k fun flags => { flags with deleted := true }
  have flagged := synced.setFlags k (fun flags => { flags with deleted := true }) fun _ => rfl
  refine ((flagged.ordered.unlinkName k).allow fun _ => False.elim).mono fun mid unlinked => ?_
  exact flagged.unlinked unlinked ((same.parent k).trans parent)

/-! ### Loading, while nothing is clean -/

/-- Every key that could be saved is dirty. -/
def AllDirty (heap : Heap) : Prop :=
  ∀ k, k < heap.next → (heap.key k).flags.dirty = true ∨ (heap.key k).flags.volatile = true

theorem Synced.loaded (allDirty : AllDirty heap) (same : SameTree heap heap')
    (dirty : ∀ i, (heap'.key i).flags.dirty = (heap.key i).flags.dirty)
    (volatile : ∀ i, (heap'.key i).flags.volatile = (heap.key i).flags.volatile) :
    Synced branches saved heap' := by
  refine synced.change (same.ordered synced.ordered) (fun c p parent isDirty => ?_)
    (fun i isDirty => ?_) ⟨le_of_eq same.next.symm, fun i _ p parent =>
      (same.parent i).symm.trans parent, fun i _ => volatile i⟩ fun b old nonvolatile clean => ?_
  · rw [same.parent] at parent
    rw [dirty] at isDirty ⊢
    rw [volatile]
    exact synced.upward c p parent isDirty
  · rw [dirty] at isDirty
    rw [volatile]
    exact synced.apart i isDirty
  · rw [dirty] at clean
    rcases allDirty b old with isDirty | isVolatile
    · rw [clean] at isDirty
      cases isDirty
    · rw [nonvolatile] at isVolatile
      cases isVolatile

end Created

theorem Synced.loadValue (synced : Synced branches saved heap) (allDirty : AllDirty heap)
    (name : Name) (type : UInt32) (data : List UInt8) :
    Synced branches saved (heap.storeValue k name type data).1 := by
  rcases heap.storeValue_cases k name type data with long | ⟨values, nbValues, stored⟩
  · rw [long]
    exact synced
  · have flags := heap.setValues_flags k values nbValues
    rw [stored]
    exact synced.loaded allDirty (heap.setValues_sameTree k values nbValues)
      (fun i => by rw [flags]) fun i => by rw [flags]

theorem Synced.loadLink (synced : Synced branches saved heap) (allDirty : AllDirty heap) :
    Synced branches saved (heap.setFlags k fun flags => { flags with symlink := true }) :=
  synced.loaded allDirty (heap.setFlags_sameTree k _)
    (heap.modify_kept k (·.flags.dirty) fun _ => rfl)
    (heap.modify_kept k (·.flags.volatile) fun _ => rfl)

theorem AllDirty.creation (allDirty : AllDirty heap)
    (creation : Creation heap parent name attr options out) : AllDirty out.1 := by
  have linked : ∀ {p} (older : p < heap.next) (new : Name),
      AllDirty (heap.link p older new (newFlags options)) := by
    intro p older new i old
    by_cases self : i = heap.next
    · rw [self, link_new_flags, newFlags]
      cases options.volatile
      · exact .inl rfl
      · exact .inr rfl
    · have before : i < heap.next := Nat.lt_of_le_of_ne (Nat.le_of_lt_succ old) self
      have same := link_marks older new (newFlags options) self
      exact (allDirty i before).imp (congrArg (·.1) same).trans (congrArg (·.2.1) same).trans
  cases creation with
  | same => exact allDirty
  | linked p new vacant _ => exact linked vacant.older new
  | refused p new heap' vacant _ _ _ unlinked =>
    intro i old
    have flags : (heap'.key i).flags = _ := congrArg (·.flags) (unlinked.data i)
    rw [unlinked.next] at old
    rw [flags]
    exact linked vacant.older new i old

theorem Synced.createKeyRecursive (synced : Synced branches saved heap) (allDirty : AllDirty heap)
    (root : Nat) (name : Name) :
    Yields (heap.createKeyRecursive root name) fun out =>
      Synced branches saved out.1 := by
  have keeps : ∀ {heap root name attr options out}, Creation heap (some root) name attr options out →
      Synced branches saved heap ∧ AllDirty heap → Synced branches saved out.1 ∧ AllDirty out.1 := by
    rintro heap root name attr options out creation ⟨synced, allDirty⟩
    refine ⟨?_, allDirty.creation creation⟩
    cases creation with
    | same => exact synced
    | linked p new vacant _ =>
      exact synced.link_unmarked vacant.missing.missing (allDirty p vacant.older)
    | refused p new _ vacant _ _ _ unlinked =>
      exact synced.refused vacant.missing.missing unlinked
  exact (createKeyRecursive_keeps keeps ⟨synced, allDirty⟩ root name).mono fun _ => And.left

end Changes

end FreeWindows.Registry
