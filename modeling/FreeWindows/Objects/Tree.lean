/-
**The tree of names.**

Seen from the outside, an object has a name in a directory, or none, and a directory has a name space. A
tree is consistent if these agree (`Tree`). A name is found in a directory if and only if the object that is
found has that name there (`Tree.findObject_iff`).
-/

import FreeWindows.Objects.Model

namespace FreeWindows.Objects

open Registry Function List Option Namespace

variable {casemap : CaseMap} {nameOf : Nat → Option ObjectName} {dirOf : Nat → Option Namespace}
  {next root : Nat}

structure Tree (casemap : CaseMap) (nameOf : Nat → Option ObjectName) (dirOf : Nat → Option Namespace)
    (root : Nat) : Prop where
  named : ∀ id name, nameOf id = some name → name.parent < id ∧ name.name ≠ [] ∧ backslash ∉ name.name ∧
    ∃ ns, dirOf name.parent = some ns ∧ ⟨name.name, id⟩ ∈ ns.names (hashStrW casemap name.name ns.hashSize)
  entries : ∀ d ns hash entry, dirOf d = some ns → entry ∈ ns.names hash →
    hash = hashStrW casemap entry.name ns.hashSize ∧ nameOf entry.obj = some ⟨entry.name, d⟩
  distinct : ∀ d ns hash, dirOf d = some ns → ((ns.names hash).map Entry.name).Nodup
  rootDir : ∃ ns, dirOf root = some ns
  rootName : nameOf root = none

/-- Nobody has a name in the directory. -/
def Childless (nameOf : Nat → Option ObjectName) (d : Nat) : Prop :=
  ∀ id name, nameOf id = some name → name.parent ≠ d

namespace Tree

variable {d id : Nat} {ns : Namespace}

section Kept

variable (tree : Tree casemap nameOf dirOf root)
include tree

theorem findObject_iff {name : Name} (dir : dirOf d = some ns) (some? : name ≠ []) :
    ns.findObject casemap name = some id ↔ nameOf id = some ⟨name, d⟩ := by
  rw [findObject, if_neg some?]
  constructor
  · intro found
    obtain ⟨entry, first, rfl⟩ := map_eq_some_iff.mp found
    have same : entry.name = name := by simpa using find?_some first
    rw [← same]
    exact (tree.entries d ns _ entry dir (mem_of_find?_eq_some first)).2
  · intro named
    obtain ⟨-, -, -, ns', dir', member⟩ := tree.named id _ named
    cases dir.symm.trans dir'
    have present : ((ns.names (hashStrW casemap name ns.hashSize)).find?
        fun entry => entry.name = name).isSome = true :=
      find?_isSome.mpr ⟨_, member, decide_eq_true rfl⟩
    obtain ⟨entry, first⟩ := isSome_iff_exists.mp present
    have same : entry.name = name := by simpa using find?_some first
    rw [first, inj_on_of_nodup_map (tree.distinct d ns _ dir) (mem_of_find?_eq_some first) member same]
    rfl

/-- A tree is consistent if each of its directories is: one of them may change, with the names in it. -/
theorem change {nameOf' : Nat → Option ObjectName} {new : Option Namespace}
    (same : ∀ i given, given.parent ≠ d → (nameOf' i = some given ↔ nameOf i = some given))
    (named : ∀ i name, nameOf' i = some ⟨name, d⟩ → d < i ∧ name ≠ [] ∧ backslash ∉ name ∧
      ∃ ns, new = some ns ∧ ⟨name, i⟩ ∈ ns.names (hashStrW casemap name ns.hashSize))
    (entries : ∀ ns hash entry, new = some ns → entry ∈ ns.names hash →
      hash = hashStrW casemap entry.name ns.hashSize ∧ nameOf' entry.obj = some ⟨entry.name, d⟩)
    (distinct : ∀ ns hash, new = some ns → ((ns.names hash).map Entry.name).Nodup)
    (rootDir : root = d → ∃ ns, new = some ns) (rootName : nameOf' root = none) :
    Tree casemap nameOf' (update dirOf d new) root := by
  refine ⟨?_, ?_, ?_, ?_, rootName⟩
  · rintro i ⟨name, parent⟩ given
    by_cases here : parent = d
    · rw [here] at given
      rw [here, update_self]
      exact named i name given
    · rw [update_of_ne here]
      exact tree.named i _ ((same i _ here).mp given)
  · intro e ns hash entry dir member
    by_cases here : e = d
    · rw [here, update_self] at dir
      rw [here]
      exact entries ns hash entry dir member
    · rw [update_of_ne here] at dir
      exact (tree.entries e ns hash entry dir member).imp_right (same _ _ here).mpr
  · intro e ns hash dir
    by_cases here : e = d
    · rw [here, update_self] at dir
      exact distinct ns hash dir
    · rw [update_of_ne here] at dir
      exact tree.distinct e ns hash dir
  · by_cases here : root = d
    · rw [here, update_self]
      exact rootDir here
    · rw [update_of_ne here]
      exact tree.rootDir

/-- **A new name.** -/
theorem link {parent : Nat} {name : Name} (unnamed : nameOf id = none) (dir : dirOf parent = some ns)
    (later : parent < id) (other : id ≠ root) (some? : name ≠ []) (element : backslash ∉ name)
    (missing : ns.findObject casemap name = none) :
    Tree casemap (update nameOf id (some ⟨name, parent⟩))
      (update dirOf parent (some (ns.add casemap ⟨name, id⟩))) root := by
  have listed : ∀ hash entry, entry ∈ (ns.add casemap ⟨name, id⟩).names hash ↔
      entry ∈ ns.names hash ∨ (entry = ⟨name, id⟩ ∧ hash = hashStrW casemap name ns.hashSize) := by
    intro hash entry
    by_cases here : hash = hashStrW casemap name ns.hashSize
    · simp [add, here, or_comm]
    · simp [add, here]
  refine tree.change ?_ ?_ ?_ ?_ (fun _ => ⟨_, rfl⟩) (by rw [update_of_ne other.symm]; exact tree.rootName)
  · intro i given elsewhere
    by_cases same : i = id
    · rw [same, update_self, unnamed]
      exact ⟨fun new => absurd (congrArg ObjectName.parent (some.inj new)).symm elsewhere, nofun⟩
    · rw [update_of_ne same]
  · intro i given named
    by_cases same : i = id
    · rw [same] at named ⊢
      rw [update_self] at named
      cases named
      exact ⟨later, some?, element, _, rfl, (listed ..).mpr (.inr ⟨rfl, rfl⟩)⟩
    · rw [update_of_ne same] at named
      obtain ⟨below, nonempty, plain, ns', dir', member⟩ := tree.named i _ named
      cases dir.symm.trans dir'
      exact ⟨below, nonempty, plain, _, rfl, (listed ..).mpr (.inl member)⟩
  · rintro _ hash entry ⟨⟩ member
    obtain before | ⟨rfl, hashed⟩ := (listed ..).mp member
    · obtain ⟨hashed, named⟩ := tree.entries parent ns hash entry dir before
      refine ⟨hashed, ?_⟩
      rwa [update_of_ne]
      intro same
      rw [same, unnamed] at named
      nomatch named
    · exact ⟨hashed, update_self ..⟩
  · rintro _ hash ⟨⟩
    by_cases hashed : hash = hashStrW casemap name ns.hashSize
    · simp only [add, hashed, update_self, map_cons, nodup_cons]
      refine ⟨fun member => ?_, tree.distinct parent ns _ dir⟩
      obtain ⟨entry, found, same⟩ := mem_map.mp member
      have named := (tree.entries parent ns _ entry dir found).2
      rw [show entry.name = name from same] at named
      rw [(tree.findObject_iff dir some?).mpr named] at missing
      nomatch missing
    · simp only [add, update_of_ne hashed]
      exact tree.distinct parent ns hash dir

/-- **A name less.** -/
theorem unlink {name : ObjectName} (named : nameOf id = some name) (dir : dirOf name.parent = some ns) :
    Tree casemap (update nameOf id none)
      (update dirOf name.parent (some (ns.remove id))) root := by
  have others : ∀ hash entry, entry ∈ (ns.remove id).names hash ↔ entry ∈ ns.names hash ∧ entry.obj ≠ id := by
    intro hash entry
    simp [remove]
  refine tree.change ?_ ?_ ?_ ?_ (fun _ => ⟨_, rfl⟩) ?_
  · intro i given elsewhere
    by_cases same : i = id
    · rw [same, update_self, named]
      exact ⟨nofun, fun old => absurd (congrArg ObjectName.parent (some.inj old)).symm elsewhere⟩
    · rw [update_of_ne same]
  · intro i given named'
    have different : i ≠ id := by
      rintro rfl
      rw [update_self] at named'
      nomatch named'
    rw [update_of_ne different] at named'
    obtain ⟨below, nonempty, plain, ns', dir', member⟩ := tree.named i _ named'
    cases dir.symm.trans dir'
    exact ⟨below, nonempty, plain, _, rfl, (others ..).mpr ⟨member, different⟩⟩
  · rintro _ hash entry ⟨⟩ member
    obtain ⟨before, different⟩ := (others ..).mp member
    rw [update_of_ne different]
    exact tree.entries name.parent ns hash entry dir before
  · rintro _ hash ⟨⟩
    exact (tree.distinct name.parent ns hash dir).sublist (filter_sublist.map _)
  · by_cases same : root = id
    · rw [same, update_self]
    · rw [update_of_ne same]
      exact tree.rootName

/-- A directory without children is replaced by an empty one, or goes away. -/
theorem replace {new : Option Namespace} (childless : Childless nameOf d)
    (empty : ∀ ns hash, new = some ns → ns.names hash = []) (other : d ≠ root) :
    Tree casemap nameOf (update dirOf d new) root := by
  refine tree.change (fun _ _ _ => .rfl) ?_ ?_ ?_ (fun same => absurd same.symm other) tree.rootName
  · intro i name named
    exact absurd rfl (childless i _ named)
  · intro ns hash entry dir member
    rw [empty ns hash dir] at member
    nomatch member
  · intro ns hash dir
    rw [empty ns hash dir]
    exact nodup_nil

end Kept

end Tree

end FreeWindows.Objects
