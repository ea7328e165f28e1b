/-
**Keys below volatile keys.**

A key that is not volatile must not be created below a volatile one: `create_key_object` refuses it,
but only if the request names a root. Nothing else puts a key below another one (`Narrows`), whether
or not the arrays are in order. So as long as no absolute path leads to a volatile key
(`CarefulPath`), everything below a volatile key is volatile (`volatile_of_careful`); one request
with an absolute path is enough to break this (`createKey_absolute_fails`).
-/

import FreeWindows.Registry.Runs

namespace FreeWindows.Registry

open Lib List Heap Server

/-- The second key is a child of the first one, by its own account or by the array. -/
def Below (heap : Heap) (p c : Nat) : Prop :=
  (heap.key c).parent = some p ∨ c ∈ (heap.key p).subkeys

def VolatileBelow (heap : Heap) : Prop :=
  ∀ p c, Below heap p c → (heap.key p).flags.volatile = true → (heap.key c).flags.volatile = true

/-- No key comes below another one, and volatile keys stay volatile. -/
structure Narrows (heap heap' : Heap) : Prop where
  next : heap.next ≤ heap'.next
  below : ∀ p c, Below heap' p c → Below heap p c
  volatile : ∀ k, k < heap.next →
    (heap'.key k).flags.volatile = (heap.key k).flags.volatile

variable {root : Nat} {parent : Option Nat}

section Changes

variable {heap heap' heap'' : Heap} {k p : Nat} {name : Name}

theorem Below.lt (below : Below heap p k) : p < k ∧ k < heap.next :=
  below.elim (heap.linked k p) (heap.children p k)

theorem Narrows.refl (heap : Heap) : Narrows heap heap :=
  ⟨le_rfl, fun _ _ => id, fun _ _ => rfl⟩

theorem Narrows.trans (first : Narrows heap heap') (second : Narrows heap' heap'') :
    Narrows heap heap'' :=
  ⟨le_trans first.next second.next, fun p c => first.below p c ∘ second.below p c,
    fun k old => (second.volatile k (lt_of_lt_of_le old first.next)).trans
      (first.volatile k old)⟩

theorem Narrows.volatileBelow (narrows : Narrows heap heap') (inv : VolatileBelow heap) :
    VolatileBelow heap' := by
  intro p c below volatile
  have below' := narrows.below p c below
  obtain ⟨older, old⟩ := below'.lt
  rw [narrows.volatile c old]
  rw [narrows.volatile p (by omega)] at volatile
  exact inv p c below' volatile

/-! ### Changes of one key -/

theorem SameTree.narrows (same : SameTree heap heap')
    (volatile : ∀ k, (heap'.key k).flags.volatile = (heap.key k).flags.volatile) :
    Narrows heap heap' := by
  refine ⟨le_of_eq same.next.symm, fun p c below => ?_, fun k _ => volatile k⟩
  unfold Below at below
  rw [same.parent, same.subkeys] at below
  exact below

theorem OnlyDirty.narrows (only : OnlyDirty heap heap') : Narrows heap heap' :=
  only.toSameTree.narrows only.volatile

section Fields

variable (heap : Heap) (k : Nat)

theorem Heap.setFlags_narrows {change : Flags → Flags}
    (keeps : ∀ flags, (change flags).volatile = flags.volatile) :
    Narrows heap (heap.setFlags k change) :=
  (heap.setFlags_sameTree k change).narrows
    (heap.modify_kept k (·.flags.volatile) fun key => keeps key.flags)

theorem Heap.setValues_narrows (values : List KeyValue) (nbValues : Nat) :
    Narrows heap (heap.setValues k values nbValues) :=
  (heap.setValues_sameTree k values nbValues).narrows (heap.modify_kept k (·.flags.volatile) fun _ => rfl)

theorem Heap.storeValue_narrows (name : Name) (type : UInt32) (data : List UInt8) :
    Narrows heap (heap.storeValue k name type data).1 := by
  rcases heap.storeValue_cases k name type data with long | ⟨values, nbValues, stored⟩
  · rw [long]
    exact Narrows.refl heap
  · rw [stored]
    exact heap.setValues_narrows k values nbValues

end Fields

theorem OnValues.narrows (values : OnValues heap k heap') : Narrows heap heap' := by
  rcases values with rfl | ⟨values, nbValues, rfl⟩
  · exact Narrows.refl _
  · exact (heap.setValues_narrows k values nbValues).trans (makeDirty_onlyDirty _ k).narrows

/-! ### Changes of the tree -/

theorem Heap.unname_narrows (heap : Heap) (k : Nat) : Narrows heap (heap.unname k) := by
  refine ⟨le_rfl, fun p c below => ?_, fun i _ => ?_⟩
  · refine below.imp (fun parent => ?_) fun member => ?_
    · rw [Key.parent, unname_objName] at parent
      split at parent
      next => cases parent
      next => exact parent
    · rw [unname_subkeys] at member
      exact member
  · exact congrArg (·.flags.volatile) (heap.unname_data k i)

theorem Heap.dropEntry_narrows (heap : Heap) (p k : Nat) : Narrows heap (heap.dropEntry p k) := by
  refine ⟨le_rfl, fun q c below => ?_, fun i _ => ?_⟩
  · refine below.imp (fun parent => ?_) fun member => ?_
    · rw [Key.parent, dropEntry_objName] at parent
      exact parent
    · rw [dropEntry_subkeys] at member
      split at member
      next same => exact same ▸ mem_removeSlot member
      next => exact member
  · exact congrArg (·.flags.volatile) (heap.dropEntry_data p k i)

theorem Heap.unlinkName_narrows (heap : Heap) (k : Nat) :
    Yields (heap.unlinkName k) (Narrows heap) := by
  unfold unlinkName
  split
  next => exact heap.unname_narrows k
  next p _ =>
    split
    next => exact (heap.unname_narrows k).trans (dropEntry_narrows _ p k)
    next => exact trivial

theorem Heap.deleteKey_narrows (rounds : Nat) (recurse : Bool) (heap : Heap) (k : Nat) :
    Yields (deleteKey rounds recurse heap k) fun out => Narrows heap out.1 := by
  refine deleteKey_keeps trivial (fun heap' k p narrows _ => ?_) rounds recurse (Narrows.refl heap)
  have flagged : Narrows heap' (heap'.setFlags k fun flags => { flags with deleted := true }) :=
    heap'.setFlags_narrows k fun _ => rfl
  refine (unlinkName_narrows _ k).mono fun mid unlinked => ?_
  exact ((narrows.trans flagged).trans unlinked).trans (mid.makeDirty_onlyDirty p).narrows

/-- A rename can put the key twice into the array of its parent, but in no other one. -/
theorem Heap.relabel_narrows {slots : List Nat} (parent : (heap.key k).parent = some p) (entries) :
    Narrows heap (heap.relabel k p name slots parent entries) := by
  refine ⟨le_rfl, fun q c below => ?_, fun i _ => ?_⟩
  · rcases below with child | member
    · refine .inl ?_
      rw [Key.parent, relabel_objName] at child
      split at child
      next self => rw [self, ← child, parent]; rfl
      next => exact child
    · rw [relabel_subkeys] at member
      split at member
      next self =>
        rcases entries c member with old | same
        · exact .inr (self ▸ old)
        · exact .inl (by rw [same, parent, self])
      next => exact .inr member
  · exact congrArg (·.flags.volatile) (relabel_data _ parent _ i)

theorem Heap.renameKey_narrows (heap : Heap) (k : Nat) (name : Name) :
    Yields (heap.renameKey k name) fun out => Narrows heap out.1 := by
  unfold renameKey
  dsimp only
  split
  next => exact Narrows.refl heap
  split
  next => exact Narrows.refl heap
  next p parent =>
  split
  next => exact Narrows.refl heap
  split
  next => exact Narrows.refl heap
  split
  next => exact trivial
  next slots moved =>
    have renamed : Narrows heap (heap.relabel k p name slots parent fun _ =>
      mem_moveSlot moved) := relabel_narrows parent _
    exact renamed.trans (makeDirty_onlyDirty _ k).narrows

/-- A key that is linked and unlinked again. -/
theorem Unlinked.narrows_of_link {older : p < heap.next} {flags : Flags}
    (unlinked : Unlinked (heap.link p older name flags) heap' heap.next)
    (missing : heap.subkey p name = none) : Narrows heap heap' := by
  refine ⟨?_, fun q c below => ?_, fun i old => ?_⟩
  · rw [unlinked.next]
    exact Nat.le_succ _
  · unfold Below at below
    rw [unlinked.parent_of_link, unlinked.subkeys_of_link missing] at below
    exact below
  · have data := unlinked.data i
    rw [link_data, if_neg (by omega)] at data
    exact congrArg (·.flags.volatile) data

variable {options : Options}

/-- **A new key** below a key that is not volatile, or a volatile one. -/
theorem VolatileBelow.link (inv : VolatileBelow heap) (older : p < heap.next)
    (missing : heap.subkey p name = none)
    (allowed : options.volatile = true ∨ (heap.key p).flags.volatile = false) :
    VolatileBelow (heap.link p older name (newFlags options)) := by
  have volatile : ∀ i, ((heap.link p older name (newFlags options)).key i).flags.volatile =
      if i = heap.next then options.volatile else (heap.key i).flags.volatile := by
    intro i
    have data := congrArg (·.flags.volatile) (link_data older name (newFlags options) i)
    refine Eq.trans data ?_
    split <;> rfl
  have exactly := link_exactly older (newFlags options) missing
  intro q c below above
  by_cases new : c = heap.next
  · have parent : q = p := by
      have own : ((heap.link p older name (newFlags options)).key heap.next).parent = some q := by
        rcases below with own | member
        · exact new ▸ own
        · exact (exactly q).mp (new ▸ member)
      rw [link_parent, if_pos rfl] at own
      exact (Option.some.inj own).symm
    rw [parent, volatile, if_neg (by omega)] at above
    rw [new, volatile, if_pos rfl]
    exact allowed.resolve_right (by rw [above]; decide)
  · have old : Below heap q c := by
      refine below.imp (fun own => ?_) fun member => ?_
      · rw [link_parent, if_neg new] at own
        exact own
      · by_cases parent : q = p
        · obtain ⟨index, _, slots⟩ := link_slots older (newFlags options) missing
          rw [parent, slots, mem_append, mem_cons] at member
          rw [parent]
          rcases member with front | same | back
          · exact mem_of_mem_take front
          · exact absurd same new
          · exact mem_of_mem_drop back
        · rw [link_subkeys, if_neg parent] at member
          split at member
          · cases member
          · exact member
    have lt := old.lt
    rw [volatile, if_neg new]
    rw [volatile, if_neg (by omega)] at above
    exact inv q c old above

variable {attr : Attributes} {out : Heap × Except Status Opened}

theorem Creation.volatileBelow (creation : Creation heap (some root) name attr options out)
    (inv : VolatileBelow heap) : VolatileBelow out.1 := by
  cases creation with
  | same => exact inv
  | linked p new vacant allowed =>
    exact inv.link vacant.older vacant.missing.missing (allowed.imp_right fun either =>
      either.resolve_left nofun)
  | refused p new heap' vacant _ _ _ unlinked =>
    exact (unlinked.narrows_of_link vacant.missing.missing).volatileBelow inv

theorem KeyCreation.volatileBelow (creation : KeyCreation heap parent name attr options out)
    (inv : VolatileBelow heap) (absolute : parent = none → ∀ p new, Vacant heap parent name attr p new →
      options.volatile = true ∨ (heap.key p).flags.volatile = false) : VolatileBelow out.1 := by
  cases creation with
  | same => exact inv
  | touched q => exact (heap.makeDirty_onlyDirty q).narrows.volatileBelow inv
  | linked p new none vacant =>
    exact inv.link vacant.older vacant.missing.missing (absolute none p new vacant)
  | created p new given vacant allowed =>
    exact (makeDirty_onlyDirty _ p).narrows.volatileBelow
      (inv.link vacant.older vacant.missing.missing allowed)
  | refused p new heap' vacant _ _ _ unlinked =>
    exact (unlinked.narrows_of_link vacant.missing.missing).volatileBelow inv

end Changes

/-! ### Requests -/

/-- An absolute path does not lead to a volatile key below which a key that is not volatile would
be created. -/
def CarefulPath (server : Server) : Request → Prop
  | .createKey none name options access attr _ =>
    options.volatile = true ∨
      server.heap.LeavesAt none name (createAttributes options access attr) fun p =>
        (server.heap.key p).flags.volatile = false
  | _ => True

section Requests

variable {server : Server} {name : Name} {options : Options} {access : Access} {attr : Attributes}
  {cls : Option Name} {p : Nat}

theorem createKey_volatileBelow (inv : VolatileBelow server.heap)
    (careful : CarefulPath server (.createKey parent name options access attr cls)) :
    Yields (server.createKey parent name options access attr cls) fun out =>
      VolatileBelow out.1.heap := by
  refine server_createKey_ensures (fun heap _ => VolatileBelow heap)
    (((createKey_creation _ _ _ _ _ _).allow fun _ _ => trivial).mono fun out creation => ?_)
    fun _ => inv
  have inv' : VolatileBelow out.1 := creation.volatileBelow inv fun absolute p new vacant => by
    cases parent with
    | none => exact careful.imp_right vacant.path
    | some r => cases absolute
  exact ⟨fun _ _ => inv', fun opened _ => ⟨inv', fun cls =>
    ((out.1.setClass_sameTree opened.key cls).narrows
      (out.1.modify_kept opened.key (·.flags.volatile) fun _ => rfl)).volatileBelow inv'⟩⟩

/-- **A request with a careful path** keeps everything below volatile keys volatile. -/
theorem handle_volatileBelow (inv : VolatileBelow server.heap) {request : Request}
    (careful : CarefulPath server request) :
    Yields (server.handle request) fun out => VolatileBelow out.1.heap := by
  have narrow : ∀ {act : Except Fault (Heap × Option Status)},
      Yields act (fun out => Narrows server.heap out.1) →
      Yields act fun out => VolatileBelow out.1 := fun done =>
    done.mono fun _ narrows => narrows.volatileBelow inv
  have flagged : ∀ k change, (∀ flags : Flags, (change flags).volatile = flags.volatile) →
      Ensures (fun _ : Fault => True) (.ok (server.heap.setFlags k change, none))
        fun out : Heap × Option Status => VolatileBelow out.1 := fun k change keeps =>
    (server.heap.setFlags_narrows k keeps).volatileBelow inv
  let keeps : Heap → Option Status → Prop := fun heap _ => VolatileBelow heap
  cases request with
  | createKey => exact createKey_volatileBelow inv careful
  | renameKey k name =>
    exact withKey_ensures keeps (narrow (server.heap.renameKey_narrows k name)) fun _ => inv
  | deleteKey k =>
    exact load_ensures keeps (narrow (deleteKey_narrows 1 false server.heap k)) fun _ => inv
  | unloadRegistry k =>
    exact withKey_ensures keeps (narrow (deleteKey_narrows _ true server.heap k)) fun _ => inv
  | setKeyValue k name type data =>
    exact withKey_ensures keeps
      ((server.heap.setValue_onValues k name type data).narrows.volatileBelow inv) fun _ => inv
  | deleteKeyValue k name =>
    exact withKey_ensures keeps
      ((server.heap.deleteValue_onValues k name).narrows.volatileBelow inv) fun _ => inv
  | periodicSave modif arch files =>
    refine ensures_map ?_
    exact ((periodicSave_onlyDirty server modif arch files).allow fun _ _ => trivial).mono fun _ only =>
      only.narrows.volatileBelow inv
  | loadKey base path =>
    refine load_ensures keeps (ensures_map ?_) fun _ => inv
    exact createKeyRecursive_keeps Creation.volatileBelow inv base path
  | loadValue k name type data =>
    exact load_ensures keeps ((server.heap.storeValue_narrows k name type data).volatileBelow inv)
      fun _ => inv
  | loadLink k => exact load_ensures keeps (flagged k _ (by intro; rfl)) fun _ => inv
  | setShared k => exact load_ensures keeps (flagged k _ (by intro; rfl)) fun _ => inv
  | setPredefined k => exact load_ensures keeps (flagged k _ (by intro; rfl)) fun _ => inv
  | addBranch k => exact inv

/-! ### Refused requests -/

variable {left : Option Name}

theorem createKeyObject_refused {heap : Heap} (name_ne : name ≠ [])
    (nonvolatile : options.volatile = false)
    (found : heap.lookupNamedObject maxRecursion (some root) name attr = .ok (.key p, left))
    (vacant : left.getD [] ≠ []) (older : p < heap.next) (below : (heap.key p).flags.volatile = true) :
    ∃ heap', heap.createKeyObject (some root) name attr options =
        .ok (heap', .error .childMustBeVolatile) ∧
      Unlinked (heap.link p older (left.getD []) (newFlags options)) heap' heap.next ∧
      heap.subkey p (left.getD []) = none := by
  have missing : heap.subkey p (left.getD []) = none := by
    rcases lookupNamedObject_landed found with empty | landed
    · exact absurd (isEmpty_iff.mp empty) vacant
    · exact (landed p rfl).missing
  have unlinks := unlinkName_unlinked (link_exactly older (newFlags options) missing)
  cases result : (heap.link p older (left.getD []) (newFlags options)).unlinkName heap.next with
  | error fault =>
    rw [result] at unlinks
    exact unlinks.elim
  | ok heap' =>
    refine ⟨heap', ?_, unlinks.post result, missing⟩
    unfold createKeyObject
    rw [if_neg name_ne, found]
    dsimp only
    split
    next empty => exact absurd empty vacant
    next =>
      rw [dif_pos older, if_pos ⟨by simp [nonvolatile], rfl, below⟩]
      exact bind_eq_ok.mpr ⟨heap', result, rfl⟩

/-- A key that is not volatile is refused below a volatile one if the request names a root, and
nothing in the tree is changed. -/
theorem createKey_refused (opened : server.heap.getHkeyObj root = .ok root) (name_ne : name ≠ [])
    (nonvolatile : options.volatile = false) (found : server.heap.lookupNamedObject maxRecursion
      (server.heap.redirectParent name access (some root)) name
      (createAttributes options access attr) = .ok (.key p, left)) (vacant : left.getD [] ≠ [])
    (older : p < server.heap.next) (below : (server.heap.key p).flags.volatile = true) :
    ∃ server', server.handle (.createKey (some root) name options access attr cls) =
        .ok (server', some .childMustBeVolatile) ∧
      ∀ k, k < server.heap.next → (server'.heap.key k).objName = (server.heap.key k).objName ∧
        (server'.heap.key k).subkeys = (server.heap.key k).subkeys ∧
        (server'.heap.key k).data = (server.heap.key k).data := by
  obtain ⟨heap', refused, unlinked, missing⟩ :=
    createKeyObject_refused name_ne nonvolatile found vacant older below
  refine ⟨{ server with heap := heap' }, ?_, fun k old => ⟨?_, unlinked.subkeys_of_link missing k, ?_⟩⟩
  · have created : server.heap.createKey (some root) name options access attr =
        .ok (heap', .error .childMustBeVolatile) :=
      bind_eq_ok.mpr ⟨_, refused, rfl⟩
    have parent : (some root).mapM server.heap.getHkeyObj = .ok (some root) := by
      rw [Option.mapM_some, opened]
      rfl
    unfold Server.handle Server.createKey
    dsimp only
    rw [parent]
    exact bind_eq_ok.mpr ⟨_, created, rfl⟩
  · rw [unlinked.objName, if_neg (ne_of_lt old), link_objName, if_neg (ne_of_lt old)]
  · rw [unlinked.data, link_data, if_neg (ne_of_lt old)]

/-! ### Whole runs -/

theorem initial_volatileBelow (casemap : CaseMap) (rounds : Nat) :
    VolatileBelow (initial casemap rounds).heap := by
  intro p c below
  have lt := below.lt
  have next : (initial casemap rounds).heap.next = 1 := rfl
  omega

/-- **Below volatile keys, in every state that careful paths lead to**, every key is volatile; and a
request that names a root, for a key that is not volatile below one that is, fails and leaves the
tree as it is. -/
theorem volatile_of_careful {casemap : CaseMap} {rounds : Nat}
    (run : Runs Server.step CarefulPath (Server.initial casemap rounds) server) :
    (∀ p c, (server.heap.key c).parent = some p ∨ c ∈ (server.heap.key p).subkeys →
        (server.heap.key p).flags.volatile = true → (server.heap.key c).flags.volatile = true) ∧
      ∀ root name options access attr cls p left,
        server.heap.getHkeyObj root = .ok root → name ≠ [] → options.volatile = false →
        server.heap.lookupNamedObject maxRecursion
          (server.heap.redirectParent name access (some root)) name
          (createAttributes options access attr) = .ok (.key p, left) →
        left.getD [] ≠ [] → p < server.heap.next → (server.heap.key p).flags.volatile = true →
        ∃ server', server.handle (.createKey (some root) name options access attr cls) =
            .ok (server', some .childMustBeVolatile) ∧
          ∀ k, k < server.heap.next →
            (server'.heap.key k).objName = (server.heap.key k).objName ∧
            (server'.heap.key k).subkeys = (server.heap.key k).subkeys ∧
            (server'.heap.key k).data = (server.heap.key k).data := by
  let inv : Server → Prop := fun server => VolatileBelow server.heap
  have reached : inv server := by
    refine run.invariant inv (initial_volatileBelow casemap rounds) ?_
    intro server request server' inv' careful done
    exact (step_ensures inv (handle_volatileBelow inv' careful)).post done
  refine ⟨reached, fun root name options access attr cls p left opened name_ne nonvolatile found
    vacant older below => ?_⟩
  exact createKey_refused opened name_ne nonvolatile found vacant older below

end Requests

instance (server : Server) : (request : Request) → Decidable (CarefulPath server request)
  | .createKey none .. => inferInstanceAs (Decidable (_ ∨ _))
  | .createKey (some _) .. | .renameKey .. | .deleteKey _ | .unloadRegistry _ | .setKeyValue ..
  | .deleteKeyValue .. | .periodicSave .. | .loadKey .. | .loadValue .. | .loadLink _ | .setShared _
  | .setPredefined _ | .addBranch _ => instDecidableTrue

/-- A volatile key, and a volatile key below it by an absolute path. -/
def volatileKeys : List Request :=
  [.createKey (some 0) (wide "v") { volatile := true } {} {} none,
    .createKey none (wide "\\REGISTRY\\v\\w") { volatile := true } {} {} none]

theorem volatile_of_careful_volatileKeys :
    ∃ server, volatileKeys.foldlM (checked Server.step CarefulPath) (Server.initial id 100) =
        some server ∧
      (server.heap.key 2).parent = some 1 ∧ (server.heap.key 1).flags.volatile = true ∧
      (server.heap.key 2).flags.volatile = true := by
  obtain ⟨server, done, parent, volatile⟩ := exists_some_of_check
    (x := volatileKeys.foldlM (checked step CarefulPath) (initial id 100))
    (fun server => (server.heap.key 2).parent = some 1 ∧
      (server.heap.key 1).flags.volatile = true) (by decide +kernel)
  exact ⟨server, done, parent, volatile,
    (volatile_of_careful (runs_of_checked done)).1 1 2 (.inl parent) volatile⟩

/-- **A key that is not volatile below a volatile one.** The second request gives an absolute path,
so `parent` is null in `create_key_object` and the parent is not looked at. -/
theorem createKey_absolute_fails :
    ∃ server, runAll Server.step (Server.initial id 100)
        [.createKey (some 0) (wide "v") { volatile := true } {} {} none,
          .createKey none (wide "\\REGISTRY\\v\\w") {} {} {} none] = .ok server ∧
      (server.heap.key 2).parent = some 1 ∧ (server.heap.key 1).flags.volatile = true ∧
      (server.heap.key 2).flags.volatile = false :=
  exists_ok_of_check _ (by decide +kernel)

end FreeWindows.Registry
