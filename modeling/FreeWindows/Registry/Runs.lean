/-
**The subkeys arrays over whole runs.**

Keys are created, loaded, renamed, deleted and saved. Every request but a rename keeps the arrays in
order, and a rename does when it is careful (`handle_ordered`). So in runs of careful requests every
array is sorted and holds exactly the children of its key (`subkeys_of_careful`); one rename to the
next name in the order breaks it (`renameKey_fails`).
-/

import FreeWindows.Registry.Create

namespace FreeWindows.Registry

open Lib Server OnlyDirty SameTree

section Requests

variable {heap : Heap} {k : Nat}

/-! ### Deleting a key -/

/-- The outcomes of `delete_key` on one key. -/
inductive Deletion (heap : Heap) (k : Nat) : Heap × Option Status → Prop
  | same (status : Option Status) (done : status = none → (heap.key k).flags.deleted) :
      Deletion heap k (heap, status)
  | unlinked (p : Nat) (mid : Heap) (parent : (heap.key k).parent = some p)
      (leaf : (heap.key k).subkeys = [])
      (unlinked : Unlinked (heap.setFlags k fun flags => { flags with deleted := true }) mid k) :
      Deletion heap k (mid.makeDirty p, none)

theorem deleteKey_deletion (ordered : Ordered heap) (k : Nat) :
    Returns (heap.deleteKey 1 false k) (Deletion heap k) := by
  unfold Heap.deleteKey
  split
  next deleted => exact .same _ fun _ => deleted
  split
  next => exact .same _ fun done => nomatch done
  next p parent =>
  split
  next => exact .same _ fun done => nomatch done
  split
  next => exact .same _ fun done => nomatch done
  next none =>
    have flagged := (heap.setFlags_sameTree k fun flags => { flags with deleted := true }).ordered ordered
    refine ensures_bind (flagged.unlinkName k) fun mid unlinked => ?_
    exact .unlinked p mid parent (List.getLast?_eq_none_iff.mp none) unlinked

variable {out : Heap × Option Status} {act : Except Fault (Heap × Option Status)} {access : Access}
  {cls : Option Name} {request : Request}

theorem Deletion.ordered (deletion : Deletion heap k out) (ordered : Ordered heap) : Ordered out.1 := by
  cases deletion with
  | same => exact ordered
  | unlinked p mid parent leaf unlinked =>
    have flagged := (heap.setFlags_sameTree k fun flags => { flags with deleted := true }).ordered ordered
    exact (mid.makeDirty_sameTree p).ordered (unlinked.ordered flagged)

/-- Faults that have nothing to do with the arrays. -/
def Unrelated (fault : Fault) : Prop := fault = .nullPointer ∨ fault = .endless

variable {allowed : Fault → Prop} {parent : Option Nat} {attr : Attributes} {name : Name}
  {options : Options} {heap' : Heap}

/-- **The rule for `delete_key`**: what is kept when a key without subkeys is taken out is kept. -/
theorem deleteKey_keeps {inv : Heap → Prop} (endless : allowed .endless)
    (leaf : ∀ heap k p, inv heap → (heap.key k).parent = some p → Ensures allowed
      ((heap.setFlags k fun flags => { flags with deleted := true }).unlinkName k)
      fun mid => inv (mid.makeDirty p)) (rounds : Nat) (recurse : Bool) (holds : inv heap) :
    Ensures allowed (heap.deleteKey rounds recurse k) fun out => inv out.1 := by
  induction rounds generalizing heap k recurse with
  | zero => exact endless
  | succ rounds ih =>
    unfold Heap.deleteKey
    split
    next => exact holds
    split
    next => exact holds
    next p parent =>
    split
    next => exact holds
    split
    next c last =>
      split
      next =>
        refine ensures_bind (ih true holds) ?_
        rintro ⟨mid, status⟩ still
        dsimp only
        split
        next => exact still
        next => exact ih true still
      next => exact holds
    next none => exact ensures_bind (leaf heap k p holds parent) fun mid still => still

theorem deleteKey_ordered (ordered : Ordered heap) (rounds : Nat) (recurse : Bool) :
    Ensures Unrelated (heap.deleteKey rounds recurse k) fun out => Ordered out.1 := by
  refine deleteKey_keeps (.inr rfl) (fun heap k p ordered _ => ?_) rounds recurse ordered
  have flagged := (heap.setFlags_sameTree k fun flags => { flags with deleted := true }).ordered ordered
  refine ((flagged.unlinkName k).allow fun _ => False.elim).mono fun mid unlinked => ?_
  exact (mid.makeDirty_sameTree p).ordered (unlinked.ordered flagged)

/-! ### All requests -/

variable {server : Server}

section Rule

variable (post : Heap → Option Status → Prop) (done : Ensures allowed act fun out => post out.1 out.2)
  (same : ∀ status, post server.heap (some status))
include post done same

theorem withKey_ensures : Ensures allowed (server.withKey k act) fun out => post out.1.heap out.2 := by
  unfold withKey
  split
  next status _ => exact same status
  next => exact ensures_map done

theorem load_ensures : Ensures allowed (server.load k act) fun out => post out.1.heap out.2 := by
  unfold Server.load
  split
  next => exact same _
  next => exact ensures_map done

end Rule

theorem mapM_getHkeyObj {root : Option Nat} (opened : parent.mapM heap.getHkeyObj = .ok root) :
    root = parent := by
  cases parent with
  | none =>
    cases opened
    rfl
  | some r =>
    have open' : heap.getHkeyObj r = .ok r ∨ ∃ status, heap.getHkeyObj r = .error status := by
      unfold Heap.getHkeyObj
      split
      · exact .inr ⟨_, rfl⟩
      split
      · exact .inr ⟨_, rfl⟩
      · exact .inl rfl
    rw [Option.mapM_some] at opened
    rcases open' with same | ⟨status, failed⟩
    · rw [same] at opened
      cases opened
      rfl
    · rw [failed] at opened
      cases opened

/-- The handler of `create_key` does what `create_key` does, and may set the class of the key. -/
theorem server_createKey_ensures (post : Heap → Option Status → Prop)
    (done : Ensures allowed (server.heap.createKey parent name options access attr) fun out =>
      (∀ status, out.2 = .error status → post out.1 (some status)) ∧
      ∀ opened, out.2 = .ok opened → post out.1 opened.status ∧
        ∀ cls, post (out.1.setClass opened.key cls) opened.status)
    (same : ∀ status, post server.heap (some status)) :
    Ensures allowed (server.createKey parent name options access attr cls) fun out =>
      post out.1.heap out.2 := by
  unfold createKey
  split
  next => exact same _
  next root opened =>
    rw [mapM_getHkeyObj opened]
    refine ensures_bind done ?_
    rintro ⟨heap', result⟩ ⟨failed, succeeded⟩
    cases result with
    | error status => exact failed status rfl
    | ok opened =>
      cases cls with
      | none => exact (succeeded opened rfl).1
      | some cls => exact (succeeded opened rfl).2 cls

theorem step_ensures (post : Server → Prop)
    (handled : Ensures allowed (server.handle request) fun out => post out.1) :
    Ensures allowed (server.step request) post := ensures_map handled

section Saves

variable (server : Server) (modif : Nat → Int) (arch : Arch)

theorem saveBranch_onlyDirty (k : Nat) (file : FileResult) :
    Ensures (· = .nullPointer) (server.saveBranch modif arch k file) fun server' =>
      OnlyDirty server.heap server'.heap := by
  unfold saveBranch
  split
  · exact refl _
  split
  · exact refl _
  split
  · exact rfl
  split
  · exact refl _
  · exact Heap.makeClean_onlyDirty _ _ _

theorem periodicSave_onlyDirty (files : Nat → FileResult) :
    Ensures (· = .nullPointer) (server.periodicSave modif arch files) fun server' =>
      OnlyDirty server.heap server'.heap := by
  unfold periodicSave
  generalize server.branches = branches
  induction branches generalizing server with
  | nil => exact refl _
  | cons k rest ih =>
    refine ensures_bind (saveBranch_onlyDirty server modif arch k (files k)) fun mid first => ?_
    exact (ih mid).mono fun server' later => first.trans later

end Saves

theorem Renaming.ordered (outcome : Renaming heap k name out) (ordered : Ordered heap) :
    Ordered out.1 := by
  cases outcome with
  | same => exact ordered
  | moved p mid parent ordered' renamed => exact (mid.makeDirty_sameTree k).ordered ordered'

/-- The condition on a request. -/
def Careful (server : Server) : Request → Prop
  | .renameKey k name => CarefulRename server.heap k name
  | _ => True

instance (heap : Heap) (k p : Nat) (name : Name) : Decidable (NextTo heap k p name) :=
  inferInstanceAs (Decidable (_ ∧ _))

instance (heap : Heap) (k p : Nat) : Decidable (LastWithRoom heap k p) :=
  inferInstanceAs (Decidable (_ ∧ _))

instance (heap : Heap) (k : Nat) (name : Name) : Decidable (CarefulRename heap k name) :=
  decidable_of_iff (∀ p ∈ (heap.key k).parent, NextTo heap k p name → LastWithRoom heap k p)
    Iff.rfl

instance (server : Server) : (request : Request) → Decidable (Careful server request)
  | .renameKey k name => inferInstanceAs (Decidable (CarefulRename server.heap k name))
  | .createKey .. | .deleteKey _ | .unloadRegistry _ | .setKeyValue .. | .deleteKeyValue ..
  | .periodicSave .. | .loadKey .. | .loadValue .. | .loadLink _ | .setShared _ | .setPredefined _
  | .addBranch _ => instDecidableTrue

/-- The children of every key are the same ones. -/
def SameChildren (heap heap' : Heap) : Prop :=
  ∀ k c, c ∈ (heap'.key k).subkeys ↔ c ∈ (heap.key k).subkeys

/-- What a request does to the children of the keys. Creating a key adds the new one to the
children of one key, deleting a key removes it, and renaming a key changes nothing but its name. -/
def Tracks (heap heap' : Heap) (status : Option Status) : Request → Prop
  | .createKey _ name .. =>
    (SameChildren heap heap' ∧ (status = none → name = [])) ∨
      ∃ p, ∀ k c, c ∈ (heap'.key k).subkeys ↔ c ∈ (heap.key k).subkeys ∨ (c = heap.next ∧ k = p)
  | .deleteKey d =>
    (SameChildren heap heap' ∧ (status = none → (heap.key d).flags.deleted)) ∨
      ∀ k c, c ∈ (heap'.key k).subkeys ↔ c ∈ (heap.key k).subkeys ∧ c ≠ d
  | .renameKey r name =>
    SameChildren heap heap' ∧ (∀ c, c ≠ r → (heap'.key c).name = (heap.key c).name) ∧
      (status = none → (heap'.key r).name = name)
  | .setKeyValue .. | .deleteKeyValue .. | .periodicSave .. => SameChildren heap heap'
  | _ => True

theorem KeyCreation.tracks {out : Heap × Except Status Opened}
    (creation : KeyCreation heap parent name attr options out) (ordered : Ordered heap)
    (same : SameTree out.1 heap') :
    (SameChildren heap heap' ∧ ∀ key, out.2 = .ok key → key.status ≠ none ∨ name = []) ∨
      ∃ p, ∀ k c, c ∈ (heap'.key k).subkeys ↔
        c ∈ (heap.key k).subkeys ∨ (c = heap.next ∧ k = p) := by
  have ordered' := same.ordered (creation.ordered ordered)
  rcases creation.parents with ⟨parents, opened⟩ | ⟨p, parents⟩
  · exact .inl ⟨fun k c => by rw [ordered.exactly, ordered'.exactly, same.parent, parents], opened⟩
  · refine .inr ⟨p, fun k c => ?_⟩
    rw [ordered'.exactly, ordered.exactly, same.parent, parents]
    split
    next fresh =>
      rw [parent_of_fresh heap (le_of_eq fresh.symm)]
      simp [fresh, eq_comm]
    next old => simp [old]

/-- The arrays are in order after a request, and the children are the right ones. -/
def Kept (heap : Heap) (request : Request) (heap' : Heap) (status : Option Status) : Prop :=
  Ordered heap' ∧ Tracks heap heap' status request

section Ordered

variable (ordered : Ordered server.heap)
include ordered

/-- Creating a key keeps the arrays in order and adds at most the new key. -/
theorem handle_createKey :
    Ensures Unrelated (server.createKey parent name options access attr cls) fun out =>
      Kept server.heap (.createKey parent name options access attr cls) out.1.heap out.2 := by
  refine server_createKey_ensures (Kept server.heap (.createKey parent name options access attr cls))
    (((createKey_creation _ _ _ _ _ _).allow fun _ => .inl).mono fun out creation =>
      ⟨fun status failed => ?_, fun opened done => ?_⟩)
    fun status => ⟨ordered, .inl ⟨fun _ _ => Iff.rfl, nofun⟩⟩
  · refine ⟨creation.ordered ordered, (creation.tracks ordered (refl _)).imp_left ?_⟩
    exact fun ⟨same, _⟩ => ⟨same, nofun⟩
  · have finish : ∀ final, SameTree out.1 final → Kept server.heap
        (.createKey parent name options access attr cls) final opened.status := fun final same =>
      ⟨same.ordered (creation.ordered ordered),
        (creation.tracks ordered same).imp_left fun ⟨children, found⟩ =>
          ⟨children, fun new => (found opened done).resolve_left fun old => old new⟩⟩
    exact ⟨finish _ (refl _), fun cls => finish _ (out.1.setClass_sameTree opened.key cls)⟩

theorem handle_renameKey (careful : CarefulRename server.heap k name) :
    Ensures Unrelated (server.heap.renameKey k name) fun out =>
      Kept server.heap (.renameKey k name) out.1 out.2 := by
  refine ((ordered.renameKey careful).allow fun _ => False.elim).mono fun out outcome =>
    ⟨outcome.ordered ordered, ?_⟩
  cases outcome with
  | same => exact ⟨fun _ _ => Iff.rfl, fun _ _ => rfl, nofun⟩
  | moved p mid parent ordered' renamed =>
    have names : ∀ c, ((mid.makeDirty k).key c).name = if c = k then name
        else (server.heap.key c).name := fun c =>
      ((mid.makeDirty_sameTree k).name c).trans (renamed.name c)
    refine ⟨fun j c => ?_, fun c other => (names c).trans (if_neg other), fun _ =>
      (names k).trans (if_pos rfl)⟩
    rw [(mid.makeDirty_sameTree k).subkeys, (renamed.subkeys j).mem_iff]

theorem handle_deleteKey :
    Ensures Unrelated (server.heap.deleteKey 1 false k) fun out =>
      Kept server.heap (.deleteKey k) out.1 out.2 := by
  refine ((deleteKey_deletion ordered k).allow fun _ => False.elim).mono fun out outcome =>
    ⟨outcome.ordered ordered, ?_⟩
  cases outcome with
  | same status done => exact .inl ⟨fun _ _ => Iff.rfl, done⟩
  | unlinked p mid parent leaf unlinked =>
    refine .inr fun j c => ?_
    rw [(mid.makeDirty_sameTree p).subkeys, unlinked.subkeys,
      (server.heap.setFlags_sameTree k _).subkeys, (ordered.nodup j).mem_erase_iff, and_comm]

/-- **A careful request** keeps the arrays in order and does to the children what it is for. -/
theorem handle_ordered (careful : Careful server request) :
    Ensures Unrelated (server.handle request) fun out =>
      Kept server.heap request out.1.heap out.2 := by
  have same : ∀ {heap' : Heap}, SameTree server.heap heap' →
      Ordered heap' ∧ SameChildren server.heap heap' := fun same =>
    ⟨same.ordered ordered, fun k c => by rw [same.subkeys]⟩
  have unchanged := same (refl server.heap)
  have flagged : ∀ k change, ∀ status : Option Status,
      Ordered (server.heap.setFlags k change, status).1 := fun k change _ =>
    (same (server.heap.setFlags_sameTree k change)).1
  cases request with
  | createKey => exact handle_createKey ordered
  | renameKey k name =>
    exact withKey_ensures (Kept _ (.renameKey k name)) (handle_renameKey ordered careful)
      fun status => ⟨ordered, unchanged.2, fun _ _ => rfl, nofun⟩
  | deleteKey k =>
    exact load_ensures (Kept _ (.deleteKey k)) (handle_deleteKey ordered)
      fun status => ⟨ordered, .inl ⟨unchanged.2, nofun⟩⟩
  | unloadRegistry k =>
    refine withKey_ensures (Kept _ (.unloadRegistry k)) ?_ fun _ => ⟨ordered, trivial⟩
    exact (deleteKey_ordered ordered _ _).mono fun _ ordered' => ⟨ordered', trivial⟩
  | setKeyValue k name type data =>
    exact withKey_ensures (Kept _ (.setKeyValue k name type data))
      (same (server.heap.setValue_onValues k name type data).sameTree) fun _ => unchanged
  | deleteKeyValue k name =>
    exact withKey_ensures (Kept _ (.deleteKeyValue k name))
      (same (server.heap.deleteValue_onValues k name).sameTree) fun _ => unchanged
  | periodicSave modif arch files =>
    refine ensures_map ?_
    exact ((periodicSave_onlyDirty server modif arch files).allow fun _ => .inl).mono fun server' only =>
      same only.toSameTree
  | loadKey base path =>
    refine load_ensures (Kept _ (.loadKey base path)) ?_ fun _ => ⟨ordered, trivial⟩
    refine ensures_map ?_
    exact (createKeyRecursive_keeps Creation.ordered ordered base path).mono
      fun _ ordered' => ⟨ordered', trivial⟩
  | loadValue k name type data =>
    exact load_ensures (Kept _ (.loadValue k name type data))
      ⟨(same (server.heap.storeValue_sameTree k name type data)).1, trivial⟩
      fun _ => ⟨ordered, trivial⟩
  | loadLink k =>
    exact load_ensures (Kept _ (.loadLink k)) ⟨flagged k _ _, trivial⟩ fun _ => ⟨ordered, trivial⟩
  | setShared k =>
    exact load_ensures (Kept _ (.setShared k)) ⟨flagged k _ _, trivial⟩ fun _ => ⟨ordered, trivial⟩
  | setPredefined k =>
    exact load_ensures (Kept _ (.setPredefined k)) ⟨flagged k _ _, trivial⟩ fun _ => ⟨ordered, trivial⟩
  | addBranch k => exact ⟨ordered, trivial⟩

end Ordered

/-! ### Whole runs -/

theorem initial_ordered (casemap : CaseMap) (rounds : Nat) : Ordered (initial casemap rounds).heap := by
  have empty : ∀ k, ((initial casemap rounds).heap.key k).subkeys = [] ∧
      ((initial casemap rounds).heap.key k).parent = none ∧
      ((initial casemap rounds).heap.key k).nbSubkeys = 0 := by
    intro k
    dsimp only [initial]
    split <;> exact ⟨rfl, rfl, rfl⟩
  refine ⟨fun k => ?_, fun k c => ?_, fun k => ?_, fun k => .inl (empty k).2.2⟩
  · rw [(empty k).1]
    exact List.Pairwise.nil
  · simp [(empty k).1, (empty c).2.1]
  · rw [(empty k).1]
    exact Nat.zero_le _

/-- `find_subkey` finds exactly the child of that name. -/
theorem Ordered.subkey_iff (ordered : Ordered heap) {c : Nat} :
    heap.subkey k name = some c ↔ c ∈ (heap.key k).subkeys ∧
      folded heap.casemap (heap.key c).name = folded heap.casemap name :=
  findName_iff (ordered.ascending k)

/-- **The subkeys arrays in every state that careful requests lead to.** An array is strictly
increasing in the order of `find_subkey`, it holds exactly the children of its key, each of them
once, and they fit in the allocated slots; `find_subkey` finds the child of a name whenever there is
one; and a further careful request adds, removes or renames what it is for, without leaving an array
or failing an assertion. -/
theorem subkeys_of_careful {casemap : CaseMap} {rounds : Nat}
    (run : Runs Server.step Careful (Server.initial casemap rounds) server) :
    (∀ k, (server.heap.key k).subkeys.Pairwise (fun a b =>
          compareName server.heap.casemap (server.heap.key a).name (server.heap.key b).name < 0) ∧
        (server.heap.key k).subkeys.Nodup ∧
        (∀ c, c ∈ (server.heap.key k).subkeys ↔ (server.heap.key c).parent = some k) ∧
        (server.heap.key k).subkeys.length ≤ (server.heap.key k).nbSubkeys) ∧
      (∀ k name c, server.heap.subkey k name = some c ↔ c ∈ (server.heap.key k).subkeys ∧
        folded server.heap.casemap (server.heap.key c).name = folded server.heap.casemap name) ∧
      ∀ request, Careful server request →
        server.handle request ≠ .error .outOfBounds ∧ server.handle request ≠ .error .assertion ∧
        ∀ server' status, server.handle request = .ok (server', status) →
          Tracks server.heap server'.heap status request := by
  have ordered : Ordered server.heap := by
    let inv : Server → Prop := fun server => Ordered server.heap
    refine run.invariant inv (initial_ordered casemap rounds) ?_
    intro server request server' ordered careful done
    exact (step_ensures inv ((handle_ordered ordered careful).mono fun _ kept => kept.1)).post done
  refine ⟨fun k => ⟨?_, ordered.nodup k, ordered.exactly k, ordered.fits k⟩,
    fun k name c => ordered.subkey_iff, fun request careful => ?_⟩
  · exact (ordered.ascending k).imp fun before => (compareName_neg _ _ _).mpr before
  · have kept := handle_ordered ordered careful
    refine ⟨kept.not_error ?_, kept.not_error ?_, fun server' status done => (kept.post done).2⟩
    · rintro (same | same) <;> cases same
    · rintro (same | same) <;> cases same

end Requests

/-- Three keys: one gets another name, the last one a later name, one is deleted, and a key is
created. -/
def fewKeys : List Request :=
  [.loadKey 0 (wide "b"), .loadKey 0 (wide "a"), .loadKey 0 (wide "d"), .renameKey 2 (wide "c"),
    .renameKey 3 (wide "e"), .deleteKey 1, .createKey (some 0) (wide "d") {} {} {} none]

theorem subkeys_of_careful_fewKeys :
    ∃ server, fewKeys.foldlM (checked Server.step Careful) (Server.initial id 100) = some server ∧
      (server.heap.key 0).subkeys = [2, 4, 3] ∧
      ∀ name c, server.heap.subkey 0 name = some c ↔ c ∈ (server.heap.key 0).subkeys ∧
        folded server.heap.casemap (server.heap.key c).name =
          folded server.heap.casemap name := by
  obtain ⟨server, done, slots⟩ := exists_some_of_check
    (x := fewKeys.foldlM (checked step Careful) (initial id 100))
    (fun server => (server.heap.key 0).subkeys = [2, 4, 3]) (by decide +kernel)
  exact ⟨server, done, slots, fun name c =>
    (subkeys_of_careful (runs_of_checked done)).2.1 0 name c⟩

/-- **A rename to the next name loses a key.** Of the keys `a` and `c`, the first one is renamed to
`b`: the new name belongs in the slot 1, nothing is moved, and the key is written over `c`. The
parent has an array with `b` twice; `c` is still below it, but is not found. -/
theorem renameKey_fails :
    ∃ server, runAll Server.step (Server.initial id 100)
        [.loadKey 0 (wide "a"), .loadKey 0 (wide "c"), .renameKey 1 (wide "b")] = .ok server ∧
      (server.heap.key 2).parent = some 0 ∧ (server.heap.key 0).subkeys = [1, 1] ∧
      server.heap.subkey 0 (wide "c") = none :=
  exists_ok_of_check _ (by decide +kernel)

end FreeWindows.Registry
