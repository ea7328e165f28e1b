/-
**New objects.**

A new object is linked where `lookup_named_object` has stopped, so that its name is new in the directory
and is one element (`free_of_lookupName`). With this every request keeps the invariant (`step_ensures`).
-/

import FreeWindows.Objects.Paths

namespace FreeWindows.Objects

open Lib Registry Function Option State

/-- Statuses and failed assertions. -/
def Legal (failure : Failure) : Prop := failure ≠ .crash .memory

variable {parent : Nat}

section Lookup

variable {casemap : CaseMap} {s : State} {refs : Nat → Nat}

/-- A walk goes from object to object. -/
theorem lookupName_ensures (inv : Inv casemap s refs) {obj : Object}
    (here : s.objects parent = some obj) (cursor : Cursor) :
    Ensures Legal (s.lookupName casemap parent cursor) fun result =>
      ∀ found next, result = some (found, next) → ∃ obj, s.objects found = some obj := by
  cases ops : obj.ops with
  | other type =>
    simp only [lookupName, here, ops]
    cases cursor with
    | absent => rintro ⟨⟩
    | consumed => rintro _ _ ⟨⟩
    | rest str => rintro _ _ ⟨⟩
  | directory =>
    have dir : s.dirOf parent = some obj.entries := (dirOf_eq here).trans (if_pos ops)
    rw [lookupName_dir dir]
    cases cursor with
    | absent => rintro _ _ ⟨⟩
    | consumed => rintro _ _ ⟨⟩
    | rest str =>
      simp only [directoryLookupName]
      cases entry : obj.entries.findObject casemap (getPathElement str) with
      | none =>
        dsimp only
        split_ifs
        · rintro ⟨⟩
        · rintro ⟨⟩
        · rintro _ _ ⟨⟩
      | some found =>
        have nonempty : getPathElement str ≠ [] := by
          intro empty
          rw [empty, Namespace.findObject, if_pos rfl] at entry
          cases entry
        obtain ⟨o, there, -⟩ := Option.bind_eq_some_iff.mp ((inv.tree.findObject_iff dir nonempty).mp entry)
        dsimp only
        split_ifs
        · intro found' next equal
          cases equal
          exact ⟨o, there⟩
        · intro found' next equal
          cases equal
          exact ⟨o, there⟩

/-- The walk stops at an object that takes nothing off the rest of the path. -/
theorem lookupLoop_ensures (inv : Inv casemap s refs) {obj : Object} (cursor : Cursor)
    (here : s.objects parent = some obj) :
    Ensures Legal (s.lookupLoop casemap parent cursor) fun result =>
      (∃ obj, s.objects result.1 = some obj) ∧ s.lookupName casemap result.1 result.2 = .ok none := by
  induction size : cursor.size using Nat.strong_induction_on generalizing parent cursor obj with
  | h n ih =>
    have ensures := lookupName_ensures inv here cursor
    rw [lookupLoop]
    split
    · next failure failed =>
      rw [failed] at ensures
      exact ensures
    · next nothing => exact ⟨⟨obj, here⟩, nothing⟩
    · next found next step =>
      obtain ⟨o, there⟩ := ensures.post step found next rfl
      exact ih next.size (size ▸ size_lookupName step) next there rfl

/-- The name that is left at a directory is one element, and not in use. -/
theorem free_of_lookupName {d : Nat} {ns : Namespace} {cursor : Cursor} (dir : s.dirOf d = some ns)
    (stops : s.lookupName casemap d cursor = .ok none) (some? : cursor.left ≠ []) :
    ns.findObject casemap cursor.left = none ∧ backslash ∉ cursor.left := by
  rw [lookupName_dir dir] at stops
  cases cursor with
  | absent => exact absurd rfl some?
  | consumed => exact absurd rfl some?
  | rest str =>
    simp only [directoryLookupName] at stops
    split at stops
    · split_ifs at stops <;> cases stops
    · next missing =>
      split_ifs at stops with empty shorter
      have whole : getPathElement str = str :=
        (List.takeWhile_prefix _).eq_of_length_le (not_lt.mp shorter)
      rw [whole] at missing
      refine ⟨missing, fun member => ?_⟩
      rw [← show getPathElement str = str from whole] at member
      have plain := List.mem_takeWhile_imp member
      simp at plain

theorem lookupNamedObject_ensures (inv : Inv casemap s refs) {parent : Option Nat}
    (live : ∀ id ∈ parent, ∃ obj, s.objects id = some obj) (name : Name) :
    Ensures Legal (s.lookupNamedObject casemap parent name) fun result =>
      (∃ obj, s.objects result.1 = some obj) ∧
        ∀ ns, s.dirOf result.1 = some ns → result.2 ≠ [] →
          ns.findObject casemap result.2 = none ∧ backslash ∉ result.2 := by
  obtain ⟨ns, rootDir⟩ := inv.tree.rootDir
  obtain ⟨rootObj, rootHere, -⟩ := exists_of_dirOf rootDir
  refine @ensures_bind _ _ _ _ _ _ (fun start => ∃ obj, s.objects start.1 = some obj) _ ?_ ?_
  · cases parent with
    | none =>
      dsimp only
      split_ifs
      · exact nofun
      · exact ⟨rootObj, rootHere⟩
    | some root =>
      dsimp only
      split_ifs
      · exact nofun
      · exact live root rfl
  · rintro ⟨start, str⟩ ⟨obj, here⟩
    refine ensures_bind (lookupLoop_ensures inv _ here) ?_
    rintro ⟨found, cursor⟩ ⟨there, stops⟩
    exact ⟨there, fun ns dir some? => free_of_lookupName dir stops some?⟩

end Lookup

section Steps

variable {casemap : CaseMap} {s : State} {refs : Nat → Nat} {id : Nat} {obj : Object}

theorem grab_ensures (inv : Inv casemap s refs) (here : s.objects id = some obj) :
    Ensures Legal (s.grabObject id) fun s' =>
      Inv casemap s' (update refs id (refs id + 1)) ∧
        s' = s.set id (some { obj with refcount := obj.refcount + 1 }) := by
  simp only [grabObject, get_eq here, Bind.bind, Except.bind]
  split_ifs
  · exact ⟨inv.recount here (by omega) (inv.root_update fun _ => Nat.succ_pos _), rfl⟩
  · exact nofun

/-- Nothing has a name in what is not there. -/
theorem Inv.childless_none (inv : Inv casemap s refs) (missing : s.objects id = none) :
    Childless s.nameOf id := by
  rintro j name named rfl
  obtain ⟨-, -, -, ns, dir, -⟩ := inv.tree.named j name named
  obtain ⟨o, there, -⟩ := exists_of_dirOf dir
  nomatch missing.symm.trans there

theorem nameOf_alloc (inv : Inv casemap s refs) (ops : Ops) : (s.allocObject ops).nameOf = s.nameOf := by
  refine (nameOf_set (s := s)).trans (update_eq_self_iff.mpr ?_)
  rw [nameOf, inv.fresh s.next le_rfl]
  rfl

/-- A new name space is empty. -/
theorem names_new {new : Object} {hashSize : Nat} (created : new.entries = .createNamespace hashSize)
    (ns : Namespace) (hash : Nat) (dir : new.dir = some ns) : ns.names hash = [] := by
  unfold Object.dir at dir
  split_ifs at dir
  rw [← some.inj dir, created]
  rfl

theorem alloc_inv (inv : Inv casemap s refs) (ops : Ops) :
    Inv casemap (s.allocObject ops) (update refs s.next 1) := by
  have missing := inv.fresh s.next le_rfl
  have childless := inv.childless_none missing
  have notRoot : s.root ≠ s.next := by
    obtain ⟨o, there⟩ := inv.live s.root inv.rootRef
    exact ne_of_lt (inv.lt_next there)
  have names := nameOf_alloc inv ops
  obtain ⟨children, counted, count⟩ := inv.count
  refine ⟨?_, ?_, ?_, ⟨children, ?_, ?_⟩, ?_⟩
  · rw [names]
    have dirs : (s.allocObject ops).dirOf = update s.dirOf s.next _ := dirOf_set (s := s)
    rw [dirs]
    exact inv.tree.replace childless (names_new rfl) notRoot.symm
  · intro j far
    have beyond : s.next + 1 ≤ j := far
    exact (set_other (by omega)).trans (inv.fresh j (by omega))
  · exact live_set inv.live fun j other => update_of_ne other ..
  · unfold parentOf
    rw [names]
    exact counted
  · refine count_set count ?_ fun j other => by rw [update_of_ne other]
    rw [update_self, counted.eq_zero fun j parent => ?_]
    obtain ⟨name, named, same⟩ := map_eq_some_iff.mp parent
    exact childless j name named same
  · rw [show (s.allocObject ops).root = s.root from rfl, update_of_ne notRoot]
    exact inv.rootRef

/-- **A new name.** The reference of the name makes up for the reference to the directory. -/
theorem Inv.link (inv : Inv casemap s refs) (here : s.objects id = some obj) (unnamed : obj.name = none)
    {dir : Object} (there : s.objects parent = some dir) (ops : dir.ops = .directory)
    (later : parent < id) (other : id ≠ s.root) {name : Name} (some? : name ≠ [])
    (plain : backslash ∉ name) (missing : dir.entries.findObject casemap name = none) :
    Inv casemap ((s.set parent (some { dir with
        entries := dir.entries.add casemap ⟨name, id⟩, refcount := dir.refcount + 1 })).set id
      (some { obj with name := some ⟨name, parent⟩ })) refs := by
  have different : parent ≠ id := ne_of_lt later
  have isDir : s.dirOf parent = some dir.entries := (dirOf_eq there).trans (if_pos ops)
  have nameId : s.nameOf id = none := (nameOf_eq here).trans unnamed
  have here₁ : ∀ dir', (s.set parent dir').objects id = some obj := fun _ =>
    (set_other different.symm).trans here
  generalize result : (s.set parent (some { dir with
      entries := dir.entries.add casemap ⟨name, id⟩, refcount := dir.refcount + 1 })).set id
    (some { obj with name := some ⟨name, parent⟩ }) = s'
  have names : s'.nameOf = update s.nameOf id (some ⟨name, parent⟩) := by
    rw [← result, nameOf_set, nameOf_same there]
    rfl
  have dirs : s'.dirOf = update s.dirOf parent (some (dir.entries.add casemap ⟨name, id⟩)) := by
    rw [← result, dirOf_same (here₁ _) (by rfl), dirOf_set]
    congr 1
    exact if_pos ops
  obtain ⟨children, counted, count⟩ := inv.count
  have empty : s.parentOf id = none := by rw [parentOf, nameId]; rfl
  have others : ∀ j, j ≠ parent → update children parent (children parent + 1) j = children j :=
    fun j other => update_of_ne other ..
  refine ⟨?_, ?_, ?_, ⟨_, parentOf_update names ▸ counted.put empty parent, ?_⟩, ?_⟩
  · rw [names, dirs, ← result]
    exact inv.tree.link nameId isDir later other some? plain missing
  · rw [← result]
    exact fresh_set (fresh_set inv.fresh there) (here₁ _)
  · rw [← result]
    exact live_set (live_set inv.live fun _ _ => rfl) fun _ _ => rfl
  · rw [← result]
    have before := count parent dir there
    have first := @count_set s parent _ (fun j => refs j + update children parent (children parent + 1) j)
      count { dir with entries := dir.entries.add casemap ⟨name, id⟩, refcount := dir.refcount + 1 }
      (by rw [update_self]; dsimp only; omega) fun j other => by rw [others j other]
    refine count_set first ?_ fun _ _ => rfl
    rw [others id different.symm]
    exact count id obj here
  · rw [← result]
    exact inv.rootRef

/-- What a request that creates an object leaves alone. -/
def Framed (s s' : State) : Prop := s'.root = s.root ∧ s'.held = s.held

theorem linkName_ensures (inv : Inv casemap s refs) (here : s.objects id = some obj)
    (unnamed : obj.name = none) {dir : Object} (there : s.objects parent = some dir)
    (later : parent < id) (other : id ≠ s.root) {name : Name} (some? : name ≠ [])
    (free : ∀ ns, s.dirOf parent = some ns → ns.findObject casemap name = none ∧ backslash ∉ name) :
    Ensures Legal (s.linkName casemap id name parent) fun s' =>
      Inv casemap s' refs ∧ Framed s s' ∧ s'.nameOf = update s.nameOf id (some ⟨name, parent⟩) ∧
        s'.objects id = some { obj with name := some ⟨name, parent⟩ } := by
  have different : id ≠ parent := (ne_of_lt later).symm
  simp only [linkName, get_eq there, Bind.bind, Except.bind]
  by_cases ops : dir.ops = .directory
  · rw [if_neg (not_not_intro ops)]
    have isDir : s.dirOf parent = some dir.entries := (dirOf_eq there).trans (if_pos ops)
    obtain ⟨missing, plain⟩ := free dir.entries isDir
    simp only [grabObject, get_eq set_self, Bind.bind, Except.bind]
    split_ifs
    · dsimp only
      rw [set_set, get_eq ((set_other different).trans here)]
      refine ⟨inv.link here unnamed there ops later other some? plain missing, ⟨rfl, rfl⟩, ?_, set_self⟩
      rw [nameOf_set, nameOf_same there]
      rfl
    · exact nofun
  · rw [if_pos ops]
    exact nofun

/-- The reference that a permanent object has to itself. -/
theorem makePermanent_ensures (inv : Inv casemap s (update refs id (refs id + 1)))
    (here : s.objects id = some obj) (attributes : Attributes) :
    Ensures Legal (s.makePermanent id attributes) fun s' =>
      Inv casemap s' (update refs id (refs id + if attributes.permanent then 2 else 1)) ∧ Framed s s' ∧
        s'.nameOf = s.nameOf ∧ ∃ obj, s'.objects id = some obj := by
  unfold makePermanent
  cases attributes.permanent with
  | false => exact ⟨inv, ⟨rfl, rfl⟩, rfl, obj, here⟩
  | true =>
    refine (grab_ensures inv here).mono ?_
    rintro s' ⟨inv', rfl⟩
    rw [update_self, update_idem] at inv'
    exact ⟨inv', ⟨rfl, rfl⟩, nameOf_same here, _, set_self⟩

/-- What `create_named_object` returns. -/
structure Created (casemap : CaseMap) (s : State) (refs : Nat → Nat) (permanent : Bool)
    (result : State × Nat × Bool) : Prop where
  inv : Inv casemap result.1
    (update refs result.2.1 (refs result.2.1 + if permanent ∧ ¬result.2.2 then 2 else 1))
  framed : Framed s result.1
  fresh : result.2.2 = false → result.2.1 ≠ s.root ∧ Childless result.1.nameOf result.2.1 ∧
    ∃ obj, result.1.objects result.2.1 = some obj

/-- **Objects are created or opened.** -/
theorem createNamedObject_ensures (inv : Inv casemap s refs) {parent : Option Nat}
    (live : ∀ id ∈ parent, ∃ obj, s.objects id = some obj) (ops : Ops) (name : Name)
    (attributes : Attributes) :
    Ensures Legal (s.createNamedObject casemap parent ops name attributes)
      (Created casemap s refs attributes.permanent) := by
  have missing := inv.fresh s.next le_rfl
  have unused : refs s.next = 0 := by
    by_contra some
    obtain ⟨o, there⟩ := inv.live s.next (by omega)
    nomatch missing.symm.trans there
  have notRoot : s.next ≠ s.root := by
    rintro same
    rw [same] at unused
    exact absurd inv.rootRef (by omega)
  have alloc := alloc_inv inv ops
  rw [show 1 = refs s.next + 1 by omega] at alloc
  have number : ∀ permanent : Bool, (if permanent = true then 2 else 1) =
      if permanent = true ∧ ¬false = true then 2 else 1 := by decide
  unfold createNamedObject
  by_cases empty : name = []
  · rw [if_pos empty]
    refine ensures_bind (makePermanent_ensures alloc set_self attributes) ?_
    rintro s' ⟨inv', framed, names, there⟩
    refine ⟨number _ ▸ inv', framed, fun _ => ⟨notRoot, ?_, there⟩⟩
    rw [show s'.nameOf = s.nameOf from names.trans (nameOf_alloc inv ops)]
    exact inv.childless_none missing
  · rw [if_neg empty]
    refine ensures_bind (lookupNamedObject_ensures inv live name) ?_
    rintro ⟨found, newName⟩ ⟨⟨existing, there⟩, free⟩
    dsimp only at there free ⊢
    by_cases done : newName = []
    · simp only [get_eq there, Bind.bind, Except.bind]
      split_ifs
      · refine ensures_bind (grab_ensures inv there) ?_
        rintro s' ⟨inv', rfl⟩
        refine ⟨?_, ⟨rfl, rfl⟩, nofun⟩
        rw [if_neg (fun both => both.2 rfl)]
        exact inv'
      · exact nofun
      · exact nofun
    · rw [if_neg done]
      have below := inv.lt_next there
      have there' : (s.allocObject ops).objects found = some existing :=
        (set_other (ne_of_lt below)).trans there
      have free' : ∀ ns, (s.allocObject ops).dirOf found = some ns →
          ns.findObject casemap newName = none ∧ backslash ∉ newName := by
        intro ns dir
        refine free ns ?_ done
        rw [dirOf_eq there, ← dirOf_eq there']
        exact dir
      refine ensures_bind (linkName_ensures alloc set_self rfl there' below notRoot done free') ?_
      rintro s1 ⟨inv1, framed1, names1, here1⟩
      refine ensures_bind (makePermanent_ensures inv1 here1 attributes) ?_
      rintro s' ⟨inv', framed, names, there⟩
      refine ⟨number _ ▸ inv', ⟨framed.1.trans framed1.1, framed.2.trans framed1.2⟩,
        fun _ => ⟨notRoot, ?_, there⟩⟩
      intro j given named
      rw [names, names1, nameOf_alloc inv ops] at named
      by_cases same : j = s.next
      · rw [same, update_self] at named
        cases named
        exact ne_of_lt below
      · rw [update_of_ne same] at named
        exact inv.childless_none missing j given named

/-- A new directory without children gets its name space. -/
theorem Inv.setEntries (inv : Inv casemap s refs) (here : s.objects id = some obj)
    (childless : Childless s.nameOf id) (other : id ≠ s.root) (hashSize : Nat) :
    Inv casemap (s.set id (some { obj with entries := .createNamespace hashSize })) refs := by
  have names : (s.set id (some { obj with entries := .createNamespace hashSize })).nameOf = s.nameOf :=
    nameOf_same here
  obtain ⟨children, counted, count⟩ := inv.count
  refine ⟨?_, fresh_set inv.fresh here, live_set inv.live fun _ _ => rfl,
    ⟨children, by unfold parentOf; rw [names]; exact counted,
      count_set count (count id obj here) fun _ _ => rfl⟩, inv.rootRef⟩
  rw [names, dirOf_set]
  exact inv.tree.replace childless (names_new rfl) other

theorem createDirectory_ensures (inv : Inv casemap s refs) {parent : Option Nat}
    (live : ∀ id ∈ parent, ∃ obj, s.objects id = some obj) (name : Name) (attributes : Attributes)
    (hashSize : Nat) :
    Ensures Legal (s.createDirectory casemap parent name attributes hashSize)
      (Created casemap s refs attributes.permanent) := by
  refine ensures_bind (createNamedObject_ensures inv live .directory name attributes) ?_
  rintro ⟨s', id, existed⟩ created
  cases existed with
  | true => exact created
  | false =>
    obtain ⟨notRoot, childless, obj, here⟩ := created.fresh rfl
    simp only [Bool.false_eq_true, if_false, get_eq here, Bind.bind, Except.bind]
    refine ⟨created.inv.setEntries here childless (created.framed.1 ▸ notRoot) hashSize, created.framed,
      fun _ => ⟨notRoot, ?_, _, set_self⟩⟩
    rw [nameOf_same here]
    exact childless

end Steps

/-! ### Requests -/

section Session

variable {casemap : CaseMap} {s : State}

/-- The references of the clients, and that of the server to the root directory. -/
def State.refs (s : State) (id : Nat) : Nat := s.held id + if id = s.root then 1 else 0

theorem refs_update {s s' : State} (root : s'.root = s.root) {id references : Nat}
    (held : s'.held = update s.held id references) :
    s'.refs = update s.refs id (references + if id = s.root then 1 else 0) := by
  funext j
  unfold refs
  rw [root, held, update_apply, update_apply]
  split
  · next same => rw [same]
  · rfl

/-- The clients' references are no part of the objects. -/
theorem Inv.of_held {refs : Nat → Nat} (inv : Inv casemap s refs) (held : Nat → Nat) :
    Inv casemap { s with held := held } refs :=
  ⟨inv.tree, inv.fresh, inv.live, inv.count, inv.rootRef⟩

/-- **Every request keeps the invariant.** Only a failed assertion can end the server. -/
theorem step_ensures (inv : Inv casemap s s.refs) (action : Action) :
    Ensures (· = .assertion) (s.step casemap action) fun s' => Inv casemap s' s'.refs := by
  cases action with
  | create parent ops name attributes hashSize =>
    simp only [step]
    split_ifs with stranger
    · exact inv
    have live : ∀ id ∈ parent, ∃ obj, s.objects id = some obj := by
      rintro id rfl
      refine inv.live id ?_
      simp only [any_some, Bool.not_eq_true, decide_eq_false_iff_not, not_and, not_not] at stranger
      unfold refs
      by_cases held : s.held id = 0
      · rw [if_pos (stranger held)]
        omega
      · omega
    have ensures : Ensures Legal (s.create casemap parent ops name attributes hashSize)
        (Created casemap s s.refs attributes.permanent) := by
      cases ops with
      | directory => exact createDirectory_ensures inv live name attributes hashSize
      | other type => exact createNamedObject_ensures inv live _ name attributes
    revert ensures
    rcases s.create casemap parent ops name attributes hashSize with (status | crash) | ⟨s', id, existed⟩ <;>
      intro ensures
    · exact inv
    · cases crash with
      | assertion => exact rfl
      | memory => exact absurd rfl ensures
    · obtain ⟨inv', ⟨root, held⟩, -⟩ := ensures
      have counts := @refs_update s (s'.hold id _) root id _
        (show (s'.hold id (if attributes.permanent ∧ ¬existed then 2 else 1)).held = _ by
          rw [hold, held])
      show Inv casemap (s'.hold id _) (s'.hold id _).refs
      rw [counts]
      have same : s.held id + (if attributes.permanent ∧ ¬existed then 2 else 1) +
          (if id = s.root then 1 else 0) =
          s.refs id + if attributes.permanent ∧ ¬existed then 2 else 1 := by
        unfold refs
        omega
      rw [same]
      exact inv'.of_held _
  | release id =>
    simp only [step]
    split_ifs with stranger
    · exact inv
    have positive : 0 < s.refs id := by
      unfold refs
      omega
    have root : id = s.root → 1 < s.refs id := by
      intro same
      unfold refs
      rw [if_pos same]
      omega
    obtain ⟨s', done, inv', kept⟩ := release_inv (id + 1)
      (inv.of_held (update s.held id (s.held id - 1))) positive root (Nat.lt_succ_self _)
    rw [done]
    show Inv casemap s' s'.refs
    rw [@refs_update s s' kept.root id _ kept.held]
    have same : s.held id - 1 + (if id = s.root then 1 else 0) = s.refs id - 1 := by
      unfold refs
      omega
    rw [same]
    exact inv'

theorem initRootDirectory_inv (hashSize : Nat) :
    Inv casemap (initRootDirectory hashSize) (initRootDirectory hashSize).refs := by
  have names : (initRootDirectory hashSize).nameOf = fun _ => none := by
    funext j
    cases j <;> rfl
  have dirs : ∀ d ns, (initRootDirectory hashSize).dirOf d = some ns → ns = .createNamespace hashSize := by
    intro d ns dir
    cases d with
    | zero => exact (some.inj dir).symm
    | succ d => nomatch dir
  refine ⟨⟨?_, ?_, ?_, ⟨_, rfl⟩, rfl⟩, ?_, ?_, ⟨fun _ => 0, ?_, ?_⟩, ?_⟩
  · intro id name named
    rw [names] at named
    nomatch named
  · intro d ns hash entry dir member
    rw [dirs d ns dir] at member
    nomatch member
  · intro d ns hash dir
    rw [dirs d ns dir]
    exact List.nodup_nil
  · intro id far
    cases id with
    | zero => nomatch far
    | succ id => rfl
  · intro id positive
    cases id with
    | zero => exact ⟨_, rfl⟩
    | succ id => nomatch positive
  · unfold parentOf
    rw [names]
    exact counted_empty
  · intro id obj here
    cases id with
    | zero => cases here; rfl
    | succ id => nomatch here
  · exact Nat.lt_of_lt_of_eq Nat.zero_lt_one rfl

end Session

end FreeWindows.Objects
