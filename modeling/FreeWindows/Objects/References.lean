/-
**References to named objects.**

An object has a reference for each of its clients, and a directory one for each object that has a name in
it (`Inv.count`). So an object is only freed when nothing has a name in it, and the objects that the names
lead to are there.
-/

import FreeWindows.Lib.Counted
import FreeWindows.Lib.Ensures
import FreeWindows.Objects.Tree

namespace FreeWindows.Objects

open Lib Registry Function Option State Object

/-- The name space, if the object is a directory. -/
def Object.dir (obj : Object) : Option Namespace := if obj.ops = .directory then some obj.entries else none

namespace State

variable (s : State)

def nameOf (id : Nat) : Option ObjectName := (s.objects id).bind Object.name

def dirOf (id : Nat) : Option Namespace := (s.objects id).bind Object.dir

def parentOf (id : Nat) : Option Nat := (s.nameOf id).map ObjectName.parent

end State

structure Inv (casemap : CaseMap) (s : State) (refs : Nat → Nat) : Prop where
  tree : Tree casemap s.nameOf s.dirOf s.root
  fresh : ∀ id, s.next ≤ id → s.objects id = none
  live : ∀ id, 0 < refs id → ∃ obj, s.objects id = some obj
  count : ∃ children, Counted s.parentOf children ∧
    ∀ id obj, s.objects id = some obj → obj.refcount = refs id + children id
  rootRef : 0 < refs s.root

section Sets

variable {s : State} {id : Nat} {obj : Option Object}

theorem set_self : (s.set id obj).objects id = obj := update_self ..

theorem set_other {j : Nat} (different : j ≠ id) : (s.set id obj).objects j = s.objects j :=
  update_of_ne different ..

theorem nameOf_set : (s.set id obj).nameOf = update s.nameOf id (obj.bind name) :=
  comp_update (bind · name) s.objects id obj

theorem dirOf_set : (s.set id obj).dirOf = update s.dirOf id (obj.bind dir) :=
  comp_update (bind · dir) s.objects id obj

theorem set_set {obj' : Option Object} : (s.set id obj).set id obj' = s.set id obj' := by
  unfold State.set
  simp only [update_idem]

theorem get_eq {o : Object} (here : s.objects id = some o) : s.get id = .ok o := by
  rw [State.get, here]

theorem nameOf_eq {o : Object} (here : s.objects id = some o) : s.nameOf id = o.name := by
  rw [nameOf, here]
  rfl

theorem dirOf_eq {o : Object} (here : s.objects id = some o) : s.dirOf id = o.dir := by
  rw [dirOf, here]
  rfl

theorem nameOf_same {o : Object} (here : s.objects id = some o) (same : obj.bind name = o.name := by rfl) :
    (s.set id obj).nameOf = s.nameOf := by
  rw [nameOf_set]
  exact update_eq_self_iff.mpr (same.trans (nameOf_eq here).symm)

theorem dirOf_same {o : Object} (here : s.objects id = some o) (same : obj.bind dir = o.dir := by rfl) :
    (s.set id obj).dirOf = s.dirOf := by
  rw [dirOf_set]
  exact update_eq_self_iff.mpr (same.trans (dirOf_eq here).symm)

theorem exists_of_dirOf {ns : Namespace} (dir : s.dirOf id = some ns) :
    ∃ o, s.objects id = some o ∧ o.ops = .directory ∧ o.entries = ns := by
  obtain ⟨o, here, isDir⟩ := bind_eq_some_iff.mp dir
  unfold Object.dir at isDir
  split at isDir
  · next ops => exact ⟨o, here, ops, some.inj isDir⟩
  · nomatch isDir

end Sets

section Steps

variable {casemap : CaseMap} {s : State} {refs : Nat → Nat} {id : Nat} {obj : Object}

theorem Inv.lt_next (inv : Inv casemap s refs) (here : s.objects id = some obj) : id < s.next := by
  by_contra far
  nomatch (inv.fresh id (not_lt.mp far)).symm.trans here

/-! An object takes the place of another: what is left of the invariant besides the tree. -/

theorem fresh_set (fresh : ∀ j, s.next ≤ j → s.objects j = none) (here : s.objects id = some obj) {new : Object}
    (j : Nat) (far : s.next ≤ j) : (s.set id (some new)).objects j = none := by
  have different : j ≠ id := by
    rintro rfl
    nomatch (fresh j far).symm.trans here
  exact (set_other different).trans (fresh j far)

theorem live_set {refs' : Nat → Nat} (live : ∀ j, 0 < refs j → ∃ o, s.objects j = some o)
    (others : ∀ j, j ≠ id → refs' j = refs j) {new : Object} (j : Nat) (positive : 0 < refs' j) :
    ∃ o, (s.set id (some new)).objects j = some o := by
  by_cases same : j = id
  · exact same ▸ ⟨_, set_self⟩
  · rw [set_other same]
    exact live j (others j same ▸ positive)

theorem count_set {number number' : Nat → Nat} (count : ∀ j o, s.objects j = some o → o.refcount = number j)
    {new : Object} (own : new.refcount = number' id) (others : ∀ j, j ≠ id → number' j = number j)
    (j : Nat) (o : Object)
    (there : (s.set id (some new)).objects j = some o) : o.refcount = number' j := by
  by_cases same : j = id
  · rw [same, set_self] at there
    cases there
    rw [same]
    exact own
  · rw [set_other same] at there
    rw [others j same]
    exact count j o there

theorem Inv.root_update (inv : Inv casemap s refs) {number : Nat} (some : id = s.root → 0 < number) :
    0 < update refs id number s.root := by
  rw [update_apply]
  split
  · next same => exact some same.symm
  · exact inv.rootRef

theorem parentOf_update {s' : State} {name : Option ObjectName} (names : s'.nameOf = update s.nameOf id name) :
    s'.parentOf = update s.parentOf id (name.map ObjectName.parent) := by
  unfold parentOf
  rw [names]
  exact comp_update (Option.map ObjectName.parent) s.nameOf id name

section Counts

variable (inv : Inv casemap s refs) (here : s.objects id = some obj)
include inv here

/-- Another count for an object, with as many references more or less. -/
theorem Inv.recount {refcount references : Nat} (same : refcount + refs id = obj.refcount + references)
    (root : 0 < update refs id references s.root) :
    Inv casemap (s.set id (some { obj with refcount := refcount })) (update refs id references) := by
  have names : (s.set id (some { obj with refcount := refcount })).nameOf = s.nameOf := nameOf_same here
  have dirs : (s.set id (some { obj with refcount := refcount })).dirOf = s.dirOf := dirOf_same here
  obtain ⟨children, counted, count⟩ := inv.count
  have others : ∀ j, j ≠ id → update refs id references j = refs j := fun j different =>
    update_of_ne different ..
  refine ⟨by rw [names, dirs]; exact inv.tree, fresh_set inv.fresh here, live_set inv.live others,
    ⟨children, by unfold parentOf; rw [names]; exact counted, ?_⟩, root⟩
  have before := count id obj here
  refine count_set count ?_ fun j different => by rw [others j different]
  rw [update_self]
  dsimp only
  omega

theorem Inv.childless (none : obj.refcount = refs id) : Childless s.nameOf id := by
  obtain ⟨children, counted, count⟩ := inv.count
  intro j name named same
  have some : s.parentOf j = some id := by
    rw [parentOf, named, map_some, same]
  have positive := counted.pos some
  have number := count id obj here
  omega

theorem Inv.free (none : obj.refcount = 0) (unnamed : obj.name = .none) :
    Inv casemap (s.set id .none) refs := by
  obtain ⟨children, counted, count⟩ := inv.count
  have number := count id obj here
  have notRoot : id ≠ s.root := by
    rintro rfl
    exact absurd inv.rootRef (by omega)
  have names : (s.set id .none).nameOf = s.nameOf := nameOf_same here unnamed.symm
  refine ⟨?_, ?_, ?_, ⟨children, ?_, ?_⟩, inv.rootRef⟩
  · rw [names, dirOf_set]
    exact inv.tree.replace (inv.childless here (by omega)) nofun notRoot
  · exact fun j far => (set_other (ne_of_gt ((inv.lt_next here).trans_le far))).trans (inv.fresh j far)
  · intro j positive
    have different : j ≠ id := by
      rintro rfl
      omega
    rw [set_other different]
    exact inv.live j positive
  · unfold parentOf
    rw [names]
    exact counted
  · intro j o there
    by_cases same : j = id
    · rw [same, set_self] at there
      nomatch there
    · rw [set_other same] at there
      exact count j o there

/-- An object is taken out of its directory, whose reference is not the one of a name any more. -/
theorem Inv.unlink {name : ObjectName} {dir : Object} (named : obj.name = some name)
    (there : s.objects name.parent = some dir) :
    Inv casemap ((s.set id (some { obj with name := none })).set name.parent
      (some { dir with entries := dir.entries.remove id }))
      (update refs name.parent (refs name.parent + 1)) := by
  have nameId : s.nameOf id = some name := (nameOf_eq here).trans named
  obtain ⟨below, -, -, ns, isDir, -⟩ := inv.tree.named id name nameId
  obtain ⟨o, there', ops, rfl⟩ := exists_of_dirOf isDir
  cases there.symm.trans there'
  have different : name.parent ≠ id := ne_of_lt below
  have there₁ : (s.set id (some { obj with name := none })).objects name.parent = some dir :=
    (set_other different).trans there
  generalize result : (s.set id (some { obj with name := none })).set name.parent
      (some { dir with entries := dir.entries.remove id }) = s'
  have names : s'.nameOf = update s.nameOf id none := by
    rw [← result, nameOf_same there₁, nameOf_set]
    rfl
  have dirs : s'.dirOf = update s.dirOf name.parent (some (dir.entries.remove id)) := by
    rw [← result, dirOf_set, dirOf_same here]
    congr 1
    exact if_pos ops
  obtain ⟨children, counted, count⟩ := inv.count
  have parent : s.parentOf id = some name.parent := by rw [parentOf, nameId]; rfl
  have positive := counted.pos parent
  have others : ∀ j, j ≠ name.parent → update refs name.parent (refs name.parent + 1) j = refs j :=
    fun j other => update_of_ne other ..
  refine ⟨?_, ?_, ?_, ⟨_, parentOf_update names ▸ counted.clear parent, ?_⟩, ?_⟩
  · rw [names, dirs, ← result]
    exact inv.tree.unlink nameId isDir
  · rw [← result]
    exact fresh_set (fresh_set inv.fresh here) there₁
  · rw [← result]
    exact live_set (live_set inv.live fun _ _ => rfl) others
  · rw [← result]
    have first := @count_set s id _ _ count { obj with name := none } (count id obj here) fun _ _ => rfl
    refine count_set first ?_ fun j other => ?_
    · have before := count name.parent dir there
      rw [update_self, update_self]
      dsimp only
      omega
    · rw [others j other, update_of_ne other]
  · rw [← result]
    exact inv.root_update fun _ => Nat.succ_pos _

end Counts

/-- What a release leaves alone. -/
structure Kept (s s' : State) (id : Nat) : Prop where
  later : ∀ j, id < j → s'.objects j = s.objects j
  next : s'.next = s.next
  root : s'.root = s.root
  held : s'.held = s.held

/-- **An object is released**, and so are the directories above it that nobody uses any more. -/
theorem release_inv (depth : Nat) {s : State} {refs : Nat → Nat} {id : Nat} (inv : Inv casemap s refs)
    (held : 0 < refs id) (root : id = s.root → 1 < refs id) (deep : id < depth) :
    ∃ s', s.releaseObject depth id = .ok s' ∧ Inv casemap s' (update refs id (refs id - 1)) ∧
      Kept s s' id := by
  induction depth generalizing s refs id with
  | zero => nomatch deep
  | succ depth ih =>
    obtain ⟨obj, here⟩ := inv.live id held
    obtain ⟨children, counted, count⟩ := inv.count
    have number := count id obj here
    have rootLeft : 0 < update refs id (refs id - 1) s.root :=
      inv.root_update fun same => Nat.sub_pos_of_lt (root same)
    have kept : ∀ o : Option Object, Kept s (s.set id o) id := fun o =>
      ⟨fun j later => set_other (by omega), rfl, rfl, rfl⟩
    simp only [releaseObject, get_eq here, Bind.bind, Except.bind]
    rw [if_neg (by omega)]
    by_cases last : obj.refcount - 1 ≠ 0
    · rw [if_pos last]
      exact ⟨_, rfl, inv.recount here (by omega) rootLeft, kept _⟩
    · rw [if_neg last]
      have zero := inv.recount here (show 0 + refs id = obj.refcount + (refs id - 1) by omega) rootLeft
      cases named : obj.name with
      | none =>
        rw [set_set]
        refine ⟨_, rfl, ?_, kept _⟩
        have freed := zero.free set_self rfl named
        rwa [set_set] at freed
      | some name =>
        dsimp only
        obtain ⟨below, -, -, ns, isDir, -⟩ := inv.tree.named id name ((nameOf_eq here).trans named)
        obtain ⟨dir, there, -, -⟩ := exists_of_dirOf isDir
        have different : name.parent ≠ id := ne_of_lt below
        rw [get_eq ((set_other different).trans there)]
        dsimp only
        have unlinked := zero.unlink set_self named ((set_other different).trans there)
        rw [set_set, update_of_ne different] at unlinked
        have server : name.parent = s.root → 1 < update (update refs id (refs id - 1))
            name.parent (refs name.parent + 1) name.parent := by
          intro same
          have positive := inv.rootRef
          rw [← same] at positive
          rw [update_self]
          omega
        obtain ⟨s', done, inv', kept'⟩ := ih unlinked (by rw [update_self]; exact Nat.succ_pos _) server
          (by omega)
        rw [done]
        have remains := (kept'.later id below).trans ((set_other different.symm).trans set_self)
        refine ⟨_, rfl, ?_, ?_⟩
        · have freed := inv'.free remains rfl rfl
          rw [update_self, Nat.add_sub_cancel, update_idem] at freed
          rwa [update_eq_self_iff.mpr
            (show refs name.parent = update refs id (refs id - 1) name.parent from
              (update_of_ne different ..).symm)] at freed
        · refine ⟨fun j later => ?_, kept'.next, kept'.root, kept'.held⟩
          rw [set_other (by omega), kept'.later j (by omega), set_other (by omega), set_other (by omega)]

end Steps

end FreeWindows.Objects
