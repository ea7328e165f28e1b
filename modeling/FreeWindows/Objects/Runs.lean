/-
**Names of objects, over whole runs.**

In every state that the server gets into, the names in a directory are different and without backslashes,
and the full name of an object leads back to the object, if its length is a 32-bit number
(`fullName_leads_back_iff`). Directories can be so deep that it is not (`fullName_of_deep_directory`).
-/

import FreeWindows.Objects.Create

namespace FreeWindows.Objects

open Lib Registry Function List State

/-- The states that the server gets into. -/
def Reachable (casemap : CaseMap) (hashSize : Nat) (s : State) : Prop :=
  Runs (State.step casemap) (fun _ _ => True) (initRootDirectory hashSize) s

/-- The object is what the path that `default_get_full_name` returns for it leads to. -/
def LeadsBack (casemap : CaseMap) (s : State) (id max : Nat) : Prop :=
  ∃ path tooLong, s.defaultGetFullName id max = .ok (some (path, tooLong)) ∧
    s.lookupNamedObject casemap none path = .ok (id, [])

/-- The names in a directory are different, and are elements of a path. -/
structure Distinct (ns : Namespace) : Prop where
  nodup : ∀ hash, ((ns.names hash).map Entry.name).Nodup
  apart : ∀ hash hash' entry entry', entry ∈ ns.names hash → entry' ∈ ns.names hash' → hash ≠ hash' →
    entry.name ≠ entry'.name
  plain : ∀ hash entry, entry ∈ ns.names hash → backslash ∉ entry.name

variable {casemap : CaseMap} {hashSize : Nat} {s : State}

theorem Reachable.inv (reachable : Reachable casemap hashSize s) : Inv casemap s s.refs :=
  reachable.invariant (fun s => Inv casemap s s.refs) (initRootDirectory_inv hashSize)
    fun _ action _ inv _ done => (step_ensures inv action).post done

/-- **Reference counts are exact**: no request uses a freed object, and only a failed assertion can end a
run. -/
theorem refcounts_of_runs (casemap : CaseMap) (hashSize : Nat) (actions : List Action) :
    Ensures (· = .assertion) (runAll (State.step casemap) (initRootDirectory hashSize) actions) fun s =>
      Inv casemap s s.refs :=
  ensures_runAll (fun _ action inv => step_ensures inv action) (initRootDirectory_inv hashSize) actions

variable {d id : Nat} {nameOf : Nat → Option ObjectName} {elements : List Name} {name : Name}
  {dir : Object}

theorem Tree.distinctNames {dirOf : Nat → Option Namespace} {root : Nat}
    (tree : Tree casemap nameOf dirOf root) {ns : Namespace} (dir : dirOf d = some ns) :
    Distinct ns := by
  refine ⟨fun hash => tree.distinct d ns hash dir, ?_, ?_⟩
  · intro hash hash' entry entry' first second different same
    have one := (tree.entries d ns hash entry dir first).1
    have two := (tree.entries d ns hash' entry' dir second).1
    rw [same, ← two] at one
    exact different one
  · intro hash entry member
    obtain ⟨-, -, plain, -⟩ := tree.named entry.obj _ (tree.entries d ns hash entry dir member).2
    exact plain

theorem leadsBack_iff (inv : Inv casemap s s.refs) (max : Nat) (rooted : Rooted s id elements)
    (some? : elements ≠ []) : LeadsBack casemap s id max ↔ bytes elements < 2 ^ 32 := by
  unfold LeadsBack
  rw [defaultGetFullName_eq inv max rooted some?]
  constructor
  · rintro ⟨path, tooLong, returned, -⟩
    by_contra long
    split_ifs at returned
    nomatch returned
  · intro short
    rw [if_pos short]
    exact ⟨_, _, rfl, lookupNamedObject_rooted inv rooted some?⟩

/-- **Names.** -/
theorem fullName_leads_back_iff (casemap : CaseMap) (hashSize : Nat) (s : State)
    (reachable : Reachable casemap hashSize s) :
    (∀ d ns, s.dirOf d = some ns → Distinct ns) ∧
      ∀ id elements max, Rooted s id elements → elements ≠ [] →
        (LeadsBack casemap s id max ↔ bytes elements < 2 ^ 32) :=
  ⟨fun _ _ dir => reachable.inv.tree.distinctNames dir, fun _ _ max rooted some? =>
    leadsBack_iff reachable.inv max rooted some?⟩

/-! ### Directories in directories -/

/-- A directory that a client can use, and that has no entries yet. -/
structure Usable (s : State) (d : Nat) : Prop where
  held : s.held d ≠ 0 ∨ d = s.root
  empty : ∃ dir, s.objects d = some dir ∧ dir.ops = .directory ∧ dir.refcount < 2 ^ 31 - 1 ∧
    ∀ hash, dir.entries.names hash = []

theorem Below.mono {nameOf' : Nat → Option ObjectName} (below : Below nameOf d id elements)
    (more : ∀ id name, nameOf id = some name → nameOf' id = some name) :
    Below nameOf' d id elements := by
  induction below with
  | self d => exact .self d
  | child named _ ih => exact .child (more _ _ named) ih

theorem Below.append {child : Nat} (below : Below nameOf d id elements)
    (named : nameOf child = some ⟨name, id⟩) : Below nameOf d child (elements ++ [name]) := by
  induction below with
  | self d => exact .child named (.self child)
  | child first _ ih => exact .child first (ih named)

/-- A directory without entries has no object for any name. -/
theorem lookupNamedObject_empty (here : s.objects d = some dir) (ops : dir.ops = .directory)
    (empty : ∀ hash, dir.entries.names hash = []) (some? : name ≠ []) (plain : backslash ∉ name) :
    s.lookupNamedObject casemap (some d) name = .ok (d, name) := by
  have isDir : s.dirOf d = some dir.entries := (dirOf_eq here).trans (if_pos ops)
  have missing : dir.entries.findObject casemap name = none := by
    rw [Namespace.findObject, if_neg some?, empty]
    rfl
  have stops : s.lookupName casemap d (.rest name) = .ok none := by
    rw [lookupName_dir isDir]
    simp only [directoryLookupName, getPathElement_self plain, missing]
    rw [if_neg (fun zero => some? (length_eq_zero_iff.mp zero)), if_neg (lt_irrefl _)]
  have first : name.head? ≠ some backslash := fun first => plain (mem_of_head? first)
  simp only [lookupNamedObject, if_neg first, if_neg some?, Bind.bind, Except.bind, lookupLoop_none stops]
  rfl

theorem createDirectory_empty (here : s.objects d = some dir) (ops : dir.ops = .directory)
    (few : dir.refcount < 2 ^ 31 - 1) (before : d < s.next)
    (empty : ∀ hash, dir.entries.names hash = []) (some? : name ≠ []) (plain : backslash ∉ name) :
    ∃ s', s.createDirectory casemap (some d) name ⟨false, false⟩ hashSize = .ok (s', s.next, false) ∧
      s'.nameOf = update s.nameOf s.next (some ⟨name, d⟩) ∧ s'.root = s.root ∧
      s'.objects s.next = some ⟨.directory, 1, some ⟨name, d⟩, .createNamespace hashSize⟩ := by
  have different : d ≠ s.next := ne_of_lt before
  have here' : (s.allocObject .directory).objects d = some dir := (set_other different).trans here
  have fresh : (s.allocObject .directory).objects s.next = some ⟨.directory, 1, none, .createNamespace 0⟩ :=
    set_self
  have linked : ∃ s1, (s.allocObject .directory).linkName casemap s.next name d = .ok s1 ∧
      s1.nameOf = update s.nameOf s.next (some ⟨name, d⟩) ∧ s1.root = s.root ∧
      s1.objects s.next = some ⟨.directory, 1, some ⟨name, d⟩, .createNamespace 0⟩ := by
    simp only [linkName, get_eq here', Bind.bind, Except.bind]
    rw [if_neg (not_not_intro ops)]
    simp only [grabObject, get_eq set_self, Bind.bind, Except.bind]
    rw [if_pos few]
    dsimp only
    rw [set_set, get_eq ((set_other different.symm).trans fresh)]
    refine ⟨_, rfl, ?_, rfl, set_self⟩
    have alloc : (s.allocObject .directory).nameOf = update s.nameOf s.next none := nameOf_set (s := s)
    rw [nameOf_set, nameOf_same here', alloc, update_idem]
    rfl
  obtain ⟨s1, done, names, root, new⟩ := linked
  have created : s.createNamedObject casemap (some d) .directory name ⟨false, false⟩ =
      .ok (s1, s.next, false) := by
    simp only [createNamedObject, if_neg some?, lookupNamedObject_empty here ops empty some? plain, done,
      Bind.bind, Except.bind]
    rfl
  simp only [createDirectory, created, Bind.bind, Except.bind, get_eq new]
  refine ⟨_, rfl, ?_, root, set_self⟩
  rw [nameOf_same new]
  exact names

/-- **Directories can be as deep as one likes.** -/
theorem exists_deep (casemap : CaseMap) (hashSize : Nat) (some? : name ≠ []) (plain : backslash ∉ name)
    (depth : Nat) :
    ∃ s d, Reachable casemap hashSize s ∧ Rooted s d (List.replicate depth name) ∧ Usable s d := by
  induction depth with
  | zero =>
    refine ⟨initRootDirectory hashSize, 0, .refl _, .self _, .inr rfl, _, rfl, rfl, ?_, fun _ => rfl⟩
    show 1 < 2 ^ 31 - 1
    decide
  | succ depth ih =>
    obtain ⟨s, d, reachable, rooted, held, dir, here, ops, few, empty⟩ := ih
    have inv := reachable.inv
    obtain ⟨s', done, names, root, new⟩ :=
      @createDirectory_empty casemap hashSize s d name dir here ops few (inv.lt_next here) empty some? plain
    have step : s.step casemap (.create (some d) .directory name ⟨false, false⟩ hashSize) =
        .ok (s'.hold s.next 1) := by
      have friend : ¬ (Option.any (fun id => decide (s.held id = 0 ∧ id ≠ s.root)) (some d)) = true := by
        simp only [Option.any_some, decide_eq_true_eq, not_and, not_not]
        exact fun zero => held.resolve_left (not_not_intro zero)
      simp only [step, create, if_neg friend, done]
      rfl
    refine ⟨s'.hold s.next 1, s.next, reachable.tail _ trivial step, ?_, .inl ?_, _, new, rfl, ?_, fun _ => rfl⟩
    · unfold Rooted at rooted ⊢
      rw [replicate_succ', show (s'.hold s.next 1).root = s.root from root,
        show (s'.hold s.next 1).nameOf = s'.nameOf from rfl, names]
      refine Below.append (rooted.mono fun id given named => ?_) (update_self ..)
      obtain ⟨o, there, -⟩ := Option.bind_eq_some_iff.mp named
      rwa [update_of_ne (ne_of_lt (inv.lt_next there))]
    · show update s'.held s.next _ s.next ≠ 0
      rw [update_self]
      exact Nat.succ_ne_zero _
    · show 1 < 2 ^ 31 - 1
      decide

theorem fullName_leads_back_iff_short : ∃ s id, Reachable (fun unit => unit) 37 s ∧ Rooted s id [[97], [97]] ∧
    LeadsBack (fun unit => unit) s id 100 := by
  obtain ⟨s, d, reachable, rooted, -⟩ :=
    exists_deep (fun unit => unit) 37 (show [97] ≠ [] by decide) (by decide) 2
  have back := (fullName_leads_back_iff (fun unit => unit) 37 s reachable).2 d _ 100 rooted (by decide)
  exact ⟨s, d, reachable, rooted, back.mpr (by decide)⟩

/-- **A name that is too long.** Directories with names of 32766 characters, which clients can use, 65539
of them one in the other: the length that is computed for the last one is 65530. -/
theorem fullName_of_deep_directory :
    ∃ s id, Reachable (fun unit => unit) 37 s ∧ Rooted s id (List.replicate 65539 (List.replicate 32766 97)) ∧
      ∀ max, s.defaultGetFullName id max = .error .memory ∧ ¬ LeadsBack (fun unit => unit) s id max := by
  have some? : replicate 32766 97 ≠ ([] : Name) := cons_ne_nil _ _
  have plain : backslash ∉ (replicate 32766 97 : Name) := fun member =>
    absurd (eq_of_mem_replicate member) (by decide)
  obtain ⟨s, d, reachable, rooted, -⟩ := exists_deep (fun unit => unit) 37 some? plain 65539
  have long : bytes (replicate 65539 (replicate 32766 97)) = 2 ^ 32 + 65530 := by
    rw [bytes, map_replicate, sum_replicate_nat, length_replicate]
    decide
  have deep : replicate 65539 (replicate 32766 97 : Name) ≠ [] := cons_ne_nil _ _
  refine ⟨s, d, reachable, rooted, fun max => ⟨?_, ?_⟩⟩
  · rw [defaultGetFullName_eq reachable.inv max rooted deep, long, if_neg (by decide), if_neg (by decide)]
  · rw [leadsBack_iff reachable.inv max rooted deep, long]
    decide

end FreeWindows.Objects
