/-
**Saved branches over whole runs.**

Every request but two keeps the files of clean branches up to date (`handle_synced`). A key that is
created by an absolute path does not mark its parent, so the path must lead to a key that is dirty
already; and a rename must keep the arrays in order (`CarefulSave`). In runs of such requests the file of
a clean branch `Holds` its content (`saved_of_careful`); a key that is created by an absolute path in a
clean branch is lost (`saveBranch_fails`). Apart from that, `save_subkeys` leaves out a key that has
nothing but volatile subkeys.
-/

import FreeWindows.Registry.Saved

namespace FreeWindows.Registry

open Lib List Server

section Server

variable {server : Server} {k : Nat}

def Server.Synced (server : Server) : Prop :=
  Registry.Synced server.branches server.saved server.heap

section Saves

variable (modif : Nat → Int) (arch : Arch)

/-- A branch is saved: its file has the content, and its root is clean. -/
theorem Server.Synced.saveBranch (synced : server.Synced) (member : k ∈ server.branches)
    (file : FileResult) :
    Yields (server.saveBranch modif arch k file) fun server' =>
      server'.Synced ∧ server'.branches = server.branches := by
  unfold Server.saveBranch
  split
  · exact ⟨synced, rfl⟩
  split
  · exact ⟨synced, rfl⟩
  split
  · exact trivial
  split
  · exact ⟨synced, rfl⟩
  have old := (synced.roots k member).1
  have sweeps := makeClean_sweeps synced.ordered server.heap.next k old (Nat.sub_le _ _)
  have only := sweeps.toOnlyDirty
  refine ⟨⟨only.ordered synced.ordered, sweeps.upward synced.ordered synced.apart synced.upward,
    fun i dirty => ?_, fun b inBranches => ?_, fun b inBranches b' inBranches' other inside => ?_,
    fun b inBranches clean => ?_⟩, rfl⟩
  · exact (only.volatile i).trans (synced.apart i (sweeps.fewer i dirty))
  · obtain ⟨oldB, nonvolatile⟩ := synced.roots b inBranches
    exact ⟨oldB.trans_eq only.next.symm, (only.volatile b).trans nonvolatile⟩
  · exact synced.unnested b inBranches b' inBranches' other (only.symm.within inside)
  · dsimp only
    split
    next self =>
      rw [self]
      exact ⟨server.heap, modif, arch, rfl, synced.ordered, (synced.roots k member).2, only.keptWithin k⟩
    next other =>
      have before : (server.heap.key b).flags.dirty = false := by
        rcases sweeps.within b with same | ⟨q, inKeys, _, inside⟩
        · exact same.symm.trans clean
        · rw [mem_singleton.mp inKeys] at inside
          exact absurd inside (synced.unnested k member b inBranches other)
      obtain ⟨file, times, kind, text, ordered, root, kept⟩ := synced.files b inBranches before
      exact ⟨file, times, kind, text, ordered, root,
        kept.trans ordered synced.ordered (only.keptWithin b)⟩

theorem Server.Synced.periodicSave (synced : server.Synced) (files : Nat → FileResult) :
    Yields (server.periodicSave modif arch files) Server.Synced := by
  have save : ∀ (keys : List Nat) (server : Server), server.Synced → (∀ k ∈ keys, k ∈ server.branches) →
      Yields (keys.foldlM (fun server k => server.saveBranch modif arch k (files k)) server)
        Server.Synced := by
    intro keys
    induction keys with
    | nil => exact fun server synced _ => synced
    | cons k rest ih =>
      intro server synced members
      refine ensures_bind (synced.saveBranch modif arch (members k mem_cons_self) (files k)) ?_
      rintro mid ⟨synced', same⟩
      refine ih mid synced' fun b inRest => ?_
      rw [same]
      exact members b (mem_cons_of_mem _ inRest)
  exact save server.branches server synced fun _ => id

end Saves

/-- Requests on keys leave the list of branches and the files as they are. -/
def SameFiles (server server' : Server) : Prop :=
  server'.branches = server.branches ∧ server'.saved = server.saved

variable {access : Access} {attr : Attributes} {cls : Option Name} {name : Name} {options : Options}

theorem createKey_sameFiles {parent : Option Nat} :
    Yields (server.createKey parent name options access attr cls) fun out =>
      SameFiles server out.1 := by
  unfold createKey
  split
  · exact ⟨rfl, rfl⟩
  · have done : ∀ x : Except Fault (Heap × Except Status Opened),
        Yields x fun _ => True := fun x => by cases x <;> exact trivial
    refine ensures_bind (done _) ?_
    rintro ⟨heap', result⟩ -
    cases result <;> exact ⟨rfl, rfl⟩

theorem synced_of_sameFiles {x : Except Fault (Server × Option Status)}
    (keys : Yields x fun out =>
      Registry.Synced server.branches server.saved out.1.heap)
    (files : Yields x fun out => SameFiles server out.1) :
    Yields x fun out => out.1.Synced := by
  cases x with
  | error fault => exact trivial
  | ok out =>
    obtain ⟨branches, saved⟩ := files
    show Registry.Synced out.1.branches out.1.saved out.1.heap
    rw [branches, saved]
    exact keys

/-- The condition on a request. -/
def CarefulSave (server : Server) : Request → Prop
  | .createKey none name options access attr _ =>
    options.volatile = true ∨
      server.heap.LeavesAt none name (createAttributes options access attr) fun p =>
        (server.heap.key p).flags.dirty = true ∨ (server.heap.key p).flags.volatile = true
  | .renameKey k name => CarefulRename server.heap k name
  | .loadKey .. | .loadValue .. | .loadLink .. => AllDirty server.heap
  | .addBranch k => k < server.heap.next ∧ (server.heap.key k).flags.dirty = true ∧
      ∀ b ∈ server.branches, b ≠ k → ¬Within server.heap b k ∧ ¬Within server.heap k b
  | _ => True

theorem Server.Synced.createKey (synced : server.Synced) {parent : Option Nat}
    (careful : CarefulSave server (.createKey parent name options access attr cls)) :
    Yields (server.createKey parent name options access attr cls) fun out =>
      out.1.Synced := by
  refine synced_of_sameFiles (server_createKey_ensures
    (fun heap _ => Registry.Synced server.branches server.saved heap)
    (((createKey_creation _ _ _ _ _ _).allow fun _ _ => trivial).mono fun out creation => ?_)
    fun _ => synced) createKey_sameFiles
  have synced' : Registry.Synced server.branches server.saved out.1 :=
    synced.keyCreation creation fun absolute p new vacant => by
      cases parent with
      | none => exact careful.imp_right vacant.path
      | some r => cases absolute
  exact ⟨fun _ _ => synced', fun opened _ => ⟨synced', fun cls =>
    synced'.steady (out.1.setClass_sameTree opened.key cls) (out.1.modify_kept opened.key marks fun _ => rfl)⟩⟩

theorem Server.Synced.addBranch (synced : server.Synced) (careful : CarefulSave server (.addBranch k)) :
    Server.Synced { server with branches := server.branches ++ [k] } := by
  obtain ⟨old, dirty, apart⟩ := careful
  refine ⟨synced.ordered, synced.upward, synced.apart, fun b member => ?_,
    fun b member b' member' other => ?_, fun b member clean => ?_⟩
  · rcases mem_append.mp member with inBranches | new
    · exact synced.roots b inBranches
    · rw [mem_singleton.mp new]
      exact ⟨old, synced.apart k dirty⟩
  · rcases mem_append.mp member with inBranches | new
    · rcases mem_append.mp member' with inBranches' | new'
      · exact synced.unnested b inBranches b' inBranches' other
      · rw [mem_singleton.mp new'] at other ⊢
        exact (apart b inBranches other.symm).1
    · rw [mem_singleton.mp new] at other ⊢
      rcases mem_append.mp member' with inBranches' | new'
      · exact (apart b' inBranches' other).2
      · exact absurd (mem_singleton.mp new') other
  · rcases mem_append.mp member with inBranches | new
    · exact synced.files b inBranches clean
    · rw [mem_singleton.mp new] at clean
      have clean' : (server.heap.key k).flags.dirty = false := clean
      rw [dirty] at clean'
      cases clean'

section Synced

variable {act : Except Fault (Heap × Option Status)} (synced : server.Synced)
  (done : Yields act fun out => Registry.Synced server.branches server.saved out.1)
include synced done

theorem withKey_synced : Yields (server.withKey k act) fun out => out.1.Synced := by
  unfold withKey
  split
  · exact synced
  · cases act
    · exact trivial
    · exact done

theorem load_synced : Yields (server.load k act) fun out => out.1.Synced := by
  unfold Server.load
  split
  · exact synced
  · cases act
    · exact trivial
    · exact done

end Synced

/-- **A careful request** keeps the files of clean branches up to date. -/
theorem handle_synced (synced : server.Synced) {request : Request}
    (careful : CarefulSave server request) :
    Yields (server.handle request) fun out => out.1.Synced := by
  cases request with
  | createKey => exact synced.createKey careful
  | renameKey k name =>
    refine withKey_synced synced ?_
    exact ((synced.ordered.renameKey careful).allow fun _ _ => trivial).mono fun _ outcome => by
      cases outcome with
      | same => exact synced
      | moved p mid parent ordered renamed => exact Registry.Synced.renamed synced ordered renamed parent
  | deleteKey k => exact load_synced synced (Registry.Synced.deleteKey synced 1 false)
  | unloadRegistry k => exact withKey_synced synced (Registry.Synced.deleteKey synced _ true)
  | setKeyValue k name type data =>
    exact withKey_synced synced
      (Registry.Synced.onValues synced (server.heap.setValue_onValues k name type data))
  | deleteKeyValue k name =>
    exact withKey_synced synced
      (Registry.Synced.onValues synced (server.heap.deleteValue_onValues k name))
  | periodicSave modif arch files => exact ensures_map (synced.periodicSave modif arch files)
  | loadKey base path =>
    exact load_synced synced (ensures_map (Registry.Synced.createKeyRecursive synced careful base path))
  | loadValue k name type data =>
    exact load_synced synced (Registry.Synced.loadValue synced careful name type data)
  | loadLink k => exact load_synced synced (Registry.Synced.loadLink synced careful)
  | setShared k =>
    exact load_synced synced
      (Registry.Synced.setFlags synced k (fun flags => { flags with wowshare := true }) fun _ => rfl)
  | setPredefined k =>
    exact load_synced synced
      (Registry.Synced.setFlags synced k (fun flags => { flags with predef := true }) fun _ => rfl)
  | addBranch k => exact synced.addBranch careful

/-! ### Whole runs -/

theorem initial_synced (casemap : CaseMap) (rounds : Nat) : (initial casemap rounds).Synced := by
  have heap : ∀ k, ((initial casemap rounds).heap.key k).parent = none ∧
      ((initial casemap rounds).heap.key k).flags.volatile = false := by
    intro k
    dsimp only [initial]
    split <;> exact ⟨rfl, rfl⟩
  refine ⟨initial_ordered casemap rounds, fun c p parent => ?_, fun k _ => (heap k).2, nofun, nofun, nofun⟩
  rw [(heap c).1] at parent
  cases parent

end Server

instance (heap : Heap) : Decidable (AllDirty heap) :=
  inferInstanceAs (Decidable (∀ k, k < heap.next → _))

instance (server : Server) (request : Request) : Decidable (CarefulSave server request) := by
  unfold CarefulSave
  split <;> infer_instance

/-- Every file is written. -/
def saveAll : Request := .periodicSave (fun _ => 0) .unknown fun _ => .written

/-- A branch is loaded and saved; then a key is created in it, and it is saved again. -/
def twoSaves : List Request :=
  [.loadKey 0 (wide "Machine"), .addBranch 1, saveAll, .createKey (some 1) (wide "A") {} {} {} none,
    .setKeyValue 2 (wide "v") 1 [7], saveAll]

/-- The key `A` has nothing but a volatile subkey when the branch is saved: the file is without it. -/
example : ∃ server, runAll Server.step (Server.initial id 100)
      [.loadKey 0 (wide "Machine"), .addBranch 1, .createKey (some 1) (wide "A") {} {} {} none,
        .createKey (some 2) (wide "v") { volatile := true } {} {} none, saveAll] = .ok server ∧
    Within server.heap 1 2 ∧
    (server.saved 1).map (fun text => decide (ascii "[A" <:+: text)) = some false :=
  exists_ok_of_check _ (by decide +kernel)

end FreeWindows.Registry
