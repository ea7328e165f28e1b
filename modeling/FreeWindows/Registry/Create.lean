/-
**What creating a key does.**

`Creation` lists the outcomes of `create_key_object`: nothing changes; a key is linked below the key
at which the lookup ended, which had no subkey of that name; or the new key is linked and removed
again because its parent is volatile. There are no others (`createKeyObject_creation`), and each of
them leaves an ordered heap ordered. `KeyCreation` lists the outcomes of `create_key`.
-/

import FreeWindows.Registry.Order

namespace FreeWindows.Registry

open Lib Heap

/-- The flags of a new key. -/
def newFlags (options : Options) : Flags :=
  { symlink := options.createLink, volatile := options.volatile, dirty := !options.volatile }

/-- The lookup of a name ended at the key `p`, and a key `new` is missing there. -/
structure Vacant (heap : Heap) (parent : Option Nat) (name : Name) (attr : Attributes) (p : Nat)
    (new : Name) : Prop where
  found : ∃ left, heap.lookupNamedObject maxRecursion parent name attr = .ok (.key p, left) ∧
    left.getD [] = new
  missing : Missing heap p new
  nonempty : new ≠ []
  older : p < heap.next

/-- The outcomes of `create_key_object`. -/
inductive Creation (heap : Heap) (parent : Option Nat) (name : Name) (attr : Attributes)
    (options : Options) : Heap × Except Status Opened → Prop
  | same (result : Except Status Opened)
      (opened : ∀ key, result = .ok key → key.status = some .objectNameExists ∨ name = []) :
      Creation heap parent name attr options (heap, result)
  | linked (p : Nat) (new : Name) (vacant : Vacant heap parent name attr p new)
      (allowed : options.volatile = true ∨ parent = none ∨ (heap.key p).flags.volatile = false) :
      Creation heap parent name attr options
        (heap.link p vacant.older new (newFlags options), .ok ⟨heap.next, none⟩)
  | refused (p : Nat) (new : Name) (heap' : Heap) (vacant : Vacant heap parent name attr p new)
      (nonvolatile : options.volatile = false) (below : (heap.key p).flags.volatile = true)
      (given : parent ≠ none)
      (unlinked : Unlinked (heap.link p vacant.older new (newFlags options)) heap' heap.next) :
      Creation heap parent name attr options (heap', .error .childMustBeVolatile)

section Creation

variable {heap : Heap} {parent : Option Nat} {name : Name} {attr : Attributes} {options : Options}

theorem createKeyObject_creation (heap : Heap) (parent : Option Nat) (name : Name)
    (attr : Attributes) (options : Options) :
    Returns (heap.createKeyObject parent name attr options)
      (Creation heap parent name attr options) := by
  unfold createKeyObject
  split
  next empty => exact .same _ fun key _ => .inr empty
  split
  · exact .same _ fun key same => by cases same
  next node left looked =>
  have landed := lookupNamedObject_landed looked
  split
  next =>
    split
    next k =>
      refine .same _ fun key same => .inl ?_
      split at same
      · cases same
        rfl
      · cases same
    next => exact .same _ fun key same => by cases same
  next nonempty =>
  split
  · exact .same _ fun key same => by cases same
  next p =>
  split
  next older =>
    have notEmpty : left.getD [] ≠ [] := nonempty
    have missing : Missing heap p (left.getD []) := by
      rcases landed with empty | missing
      · exact absurd (List.isEmpty_iff.mp empty) notEmpty
      · exact missing p rfl
    have vacant : Vacant heap parent name attr p (left.getD []) :=
      ⟨⟨left, looked, rfl⟩, missing, notEmpty, older⟩
    split
    next refused =>
      have exactly := link_exactly older (newFlags options) missing.missing
      refine ensures_bind (unlinkName_unlinked exactly) fun heap' unlinked => ?_
      exact .refused p _ heap' vacant (Bool.eq_false_iff.mpr refused.1) refused.2.2
        (by rintro rfl; exact absurd refused.2.1 (by decide)) unlinked
    next allowed =>
      refine .linked p _ vacant ?_
      by_cases volatile : options.volatile = true
      · exact .inl volatile
      · right
        cases parent with
        | none => exact .inl rfl
        | some q =>
          exact .inr (Bool.eq_false_iff.mpr fun below => allowed ⟨volatile, rfl, below⟩)
  next => exact .same _ fun key same => by cases same

variable {out : Heap × Except Status Opened}

/-- The walk along the name ends, and a key at which a part of the name is left is one of these. -/
def Heap.LeavesAt (heap : Heap) (parent : Option Nat) (name : Name) (attr : Attributes)
    (ok : Nat → Prop) : Prop :=
  match heap.lookupNamedObject maxRecursion parent name attr with
  | .ok (.key p, left) => isEmpty left = true ∨ ok p
  | .error .endless => False
  | _ => True

instance decidableLeavesAt (heap : Heap) (parent : Option Nat) (name : Name) (attr : Attributes)
    (ok : Nat → Prop) [DecidablePred ok] : Decidable (heap.LeavesAt parent name attr ok) := by
  unfold LeavesAt
  split <;> infer_instance

/-- What is required of a key to which the name leads. -/
theorem Vacant.path {ok : Nat → Prop} {p : Nat} {new : Name} (vacant : Vacant heap parent name attr p new)
    (path : heap.LeavesAt parent name attr ok) : ok p := by
  obtain ⟨left, found, rest⟩ := vacant.found
  rw [LeavesAt, found] at path
  refine path.resolve_left fun empty => vacant.nonempty ?_
  rw [← rest]
  exact List.isEmpty_iff.mp empty

theorem Creation.ordered (creation : Creation heap parent name attr options out)
    (ordered : Ordered heap) : Ordered out.1 := by
  cases creation with
  | same => exact ordered
  | linked p new vacant allowed => exact ordered.link vacant.older _ vacant.missing.missing
  | refused p new heap' vacant _ _ _ unlinked =>
    exact unlinked.ordered (ordered.link vacant.older _ vacant.missing.missing)

/-- A number that was not given to a key yet has no parent. -/
theorem parent_of_fresh (heap : Heap) {k : Nat} (fresh : heap.next ≤ k) :
    (heap.key k).parent = none := by
  cases parent : (heap.key k).parent with
  | none => rfl
  | some p => exact absurd (heap.linked k p parent).2 (by omega)

/-- The outcomes of `create_key`. The parent of a new key is marked as changed if the request named
a root. -/
inductive KeyCreation (heap : Heap) (parent : Option Nat) (name : Name) (attr : Attributes)
    (options : Options) : Heap × Except Status Opened → Prop
  | same (result : Except Status Opened)
      (opened : ∀ key, result = .ok key → key.status ≠ none ∨ name = []) :
      KeyCreation heap parent name attr options (heap, result)
  | touched (q : Nat) (opened : Opened) (empty : name = []) :
      KeyCreation heap parent name attr options (heap.makeDirty q, .ok opened)
  | linked (p : Nat) (new : Name) (absolute : parent = none)
      (vacant : Vacant heap parent name attr p new) :
      KeyCreation heap parent name attr options
        (heap.link p vacant.older new (newFlags options), .ok ⟨heap.next, none⟩)
  | created (p : Nat) (new : Name) (given : parent ≠ none)
      (vacant : Vacant heap parent name attr p new)
      (allowed : options.volatile = true ∨ (heap.key p).flags.volatile = false) :
      KeyCreation heap parent name attr options
        ((heap.link p vacant.older new (newFlags options)).makeDirty p, .ok ⟨heap.next, none⟩)
  | refused (p : Nat) (new : Name) (heap' : Heap) (vacant : Vacant heap parent name attr p new)
      (nonvolatile : options.volatile = false) (below : (heap.key p).flags.volatile = true)
      (given : parent ≠ none)
      (unlinked : Unlinked (heap.link p vacant.older new (newFlags options)) heap' heap.next) :
      KeyCreation heap parent name attr options (heap', .error .childMustBeVolatile)

theorem createKey_creation (heap : Heap) (parent : Option Nat) (name : Name) (options : Options)
    (access : Access) (attr : Attributes) :
    Ensures (· = .nullPointer) (heap.createKey parent name options access attr)
      (KeyCreation heap (heap.redirectParent name access parent) name
        (createAttributes options access attr) options) := by
  refine ensures_bind ((createKeyObject_creation _ _ _ _ _).allow fun _ => False.elim) ?_
  rintro ⟨mid, result⟩ creation
  cases creation with
  | same _ opened =>
    cases result with
    | error status => exact .same _ fun key same => nomatch same
    | ok key =>
      dsimp only
      split
      next => exact .same _ fun other same => .inl (by cases same; simp)
      next new =>
        have empty : name = [] := (opened key rfl).resolve_left new
        split
        next =>
          cases above : (heap.key key.key).parent with
          | none => exact rfl
          | some q => exact .touched q key empty
        next => exact .same _ fun _ _ => .inr empty
  | linked p new vacant allowed =>
    have above : ((heap.link p vacant.older new (newFlags options)).key heap.next).parent = some p := by
      rw [link_parent, if_pos rfl]
    dsimp only
    rw [if_neg (by simp), above]
    split
    next given =>
      have given' := Option.isSome_iff_ne_none.mp given
      exact .created p new given' vacant (allowed.imp_right fun either => either.resolve_left given')
    next absolute => exact .linked p new (Option.not_isSome_iff_eq_none.mp absolute) vacant
  | refused p new heap' vacant nonvolatile below given unlinked =>
    exact .refused p new _ vacant nonvolatile below given unlinked

theorem KeyCreation.ordered (creation : KeyCreation heap parent name attr options out)
    (ordered : Ordered heap) : Ordered out.1 := by
  cases creation with
  | same => exact ordered
  | touched q => exact (heap.makeDirty_sameTree q).ordered ordered
  | linked p new absolute vacant => exact ordered.link vacant.older _ vacant.missing.missing
  | created p new given vacant allowed =>
    exact (makeDirty_sameTree _ p).ordered (ordered.link vacant.older _ vacant.missing.missing)
  | refused p new heap' vacant _ _ _ unlinked =>
    exact unlinked.ordered (ordered.link vacant.older _ vacant.missing.missing)

/-- A key that is linked and unlinked again leaves the parents as they were. -/
theorem Unlinked.parent_of_link {p : Nat} {older : p < heap.next} {new : Name} {flags : Flags}
    {heap' : Heap} (unlinked : Unlinked (heap.link p older new flags) heap' heap.next) (c : Nat) :
    (heap'.key c).parent = (heap.key c).parent := by
  rw [unlinked.parent, link_parent]
  split
  next fresh => rw [parent_of_fresh heap (le_of_eq fresh.symm)]
  next => rfl

/-- At most one key gets a parent, the new one, and it does if the request succeeds. -/
theorem KeyCreation.parents (creation : KeyCreation heap parent name attr options out) :
    ((∀ c, (out.1.key c).parent = (heap.key c).parent) ∧
        ∀ key, out.2 = .ok key → key.status ≠ none ∨ name = []) ∨
      ∃ p, ∀ c, (out.1.key c).parent = if c = heap.next then some p else (heap.key c).parent := by
  cases creation with
  | same result opened => exact .inl ⟨fun _ => rfl, opened⟩
  | touched q opened empty =>
    exact .inl ⟨(heap.makeDirty_sameTree q).parent, fun _ _ => .inr empty⟩
  | linked p new absolute vacant => exact .inr ⟨p, link_parent vacant.older _ _⟩
  | created p new given vacant allowed =>
    refine .inr ⟨p, fun c => ?_⟩
    rw [(makeDirty_sameTree _ p).parent, link_parent]
  | refused p new heap' vacant _ _ _ unlinked =>
    exact .inl ⟨unlinked.parent_of_link, fun key same => nomatch same⟩

/-- **The keys of a path**: what the creation of one key keeps is kept. -/
theorem createKeyRecursive_keeps {allowed : Fault → Prop} {inv : Heap → Prop}
    (keeps : ∀ {heap root name attr options out}, Creation heap (some root) name attr options out →
      inv heap → inv out.1) (start : inv heap) (root : Nat) (name : Name) :
    Ensures allowed (heap.createKeyRecursive root name) fun out => inv out.1 := by
  fun_induction createKeyRecursive heap root name with
  | case1 => exact start
  | case2 heap root name nonempty tmp ih =>
    refine ensures_bind ((createKeyObject_creation _ _ _ _ _).allow fun _ => False.elim) ?_
    rintro ⟨mid, result⟩ creation
    cases result with
    | error status => exact keeps creation start
    | ok opened =>
      dsimp only
      split
      next longer => exact ih mid opened longer (keeps creation start)
      next => exact keeps creation start

end Creation

end FreeWindows.Registry
