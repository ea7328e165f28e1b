/-
**Full names.**

* `lookupLoop_ensures`: where a walk stops, there is an object, and it takes nothing off the rest of the path;
* `lookupLoop_below`: a walk along the names from a directory to an object leads there;
* `names_eq`, `writeNames_eq`: `default_get_full_name` writes the names on that way, if their length is a
  32-bit number.
-/

import FreeWindows.Objects.References

namespace FreeWindows.Objects

open Lib Registry List State

/-- The names on the way from a directory down to an object. -/
inductive Below (nameOf : Nat → Option ObjectName) : (d id : Nat) → List Name → Prop
  | self (d : Nat) : Below nameOf d d []
  | child {d child id : Nat} {name : Name} {elements : List Name} (named : nameOf child = some ⟨name, d⟩)
      (below : Below nameOf child id elements) : Below nameOf d id (name :: elements)

/-- The object is linked, and so are the directories that it is in, up to the root directory. -/
def Rooted (s : State) (id : Nat) (elements : List Name) : Prop := Below s.nameOf s.root id elements

/-- The elements with backslashes between them. -/
def joined : List Name → Name
  | [] => []
  | [element] => element
  | element :: rest => element ++ backslash :: joined rest

/-- A path from the root. -/
def fullPath (elements : List Name) : Name := elements.flatMap (backslash :: ·)

/-- The length of a full name in bytes. -/
def bytes (elements : List Name) : Nat := (elements.map fun name => 2 * name.length + 2).sum

variable {elements : List Name} {d id : Nat}

theorem fullPath_eq (some? : elements ≠ []) : fullPath elements = backslash :: joined elements := by
  induction elements with
  | nil => exact absurd rfl some?
  | cons element rest ih =>
    cases rest with
    | nil => simp [fullPath, joined]
    | cons other more =>
      have later := ih (cons_ne_nil _ _)
      unfold fullPath at later ⊢
      rw [flatMap_cons, later]
      rfl

theorem Below.snoc {nameOf : Nat → Option ObjectName} (below : Below nameOf d id elements)
    (some? : elements ≠ []) :
    ∃ parent front name, elements = front ++ [name] ∧ nameOf id = some ⟨name, parent⟩ ∧
      Below nameOf d parent front := by
  induction below with
  | self d => exact absurd rfl some?
  | @child d child id name elements named below ih =>
    cases elements with
    | nil =>
      cases below
      exact ⟨d, [], name, rfl, named, .self d⟩
    | cons element more =>
      obtain ⟨parent, front, last, equal, there, above⟩ := ih (cons_ne_nil _ _)
      exact ⟨parent, name :: front, last, by rw [equal]; rfl, there, .child named above⟩

section Lookup

variable {casemap : CaseMap} {s : State} {refs : Nat → Nat} {element : Name}

theorem getPathElement_append (plain : backslash ∉ element) (more : Name) :
    getPathElement (element ++ backslash :: more) = element := by
  unfold getPathElement
  rw [takeWhile_append_of_pos fun unit member => ?_]
  · simp
  · simp only [ne_eq, decide_not, Bool.not_eq_eq_eq_not, Bool.not_true, decide_eq_false_iff_not]
    rintro rfl
    exact plain member

theorem getPathElement_self (plain : backslash ∉ element) : getPathElement element = element := by
  refine takeWhile_eq_self_iff.mpr fun unit member => ?_
  simp only [ne_eq, decide_not, Bool.not_eq_eq_eq_not, Bool.not_true, decide_eq_false_iff_not]
  rintro rfl
  exact plain member

theorem lookupName_dir {ns : Namespace} (dir : s.dirOf d = some ns) (cursor : Cursor) :
    s.lookupName casemap d cursor = directoryLookupName casemap ns cursor := by
  obtain ⟨obj, here, ops, rfl⟩ := exists_of_dirOf dir
  simp only [lookupName, here, ops]

theorem lookupLoop_none {cursor : Cursor} (stops : s.lookupName casemap d cursor = .ok none) :
    s.lookupLoop casemap d cursor = .ok (d, cursor) := by
  rw [lookupLoop]
  split
  · next failure failed => cases stops.symm.trans failed
  · rfl
  · next found step => cases stops.symm.trans step

theorem lookupLoop_some {found : Nat} {cursor next : Cursor}
    (step : s.lookupName casemap d cursor = .ok (some (found, next))) :
    s.lookupLoop casemap d cursor = s.lookupLoop casemap found next := by
  rw [lookupLoop]
  split
  · next failure failed => cases step.symm.trans failed
  · next nothing => cases step.symm.trans nothing
  · next found' next' step' =>
    cases step.symm.trans step'
    rfl

/-- **The way down.** -/
theorem lookupLoop_below (inv : Inv casemap s refs) (below : Below s.nameOf d id elements)
    (some? : elements ≠ []) :
    s.lookupLoop casemap d (.rest (joined elements)) = .ok (id, .consumed) := by
  induction below with
  | self d => exact absurd rfl some?
  | @child d child id name elements named below ih =>
    obtain ⟨-, nonempty, plain, ns, dir, -⟩ := inv.tree.named child _ named
    have entry := (inv.tree.findObject_iff dir nonempty).mpr named
    cases elements with
    | nil =>
      cases below
      obtain ⟨obj, here, -⟩ := Option.bind_eq_some_iff.mp named
      have last : s.lookupName casemap d (.rest name) = .ok (some (child, .consumed)) := by
        rw [lookupName_dir dir]
        simp only [directoryLookupName, getPathElement_self plain, entry]
        rw [if_neg (lt_irrefl _)]
      rw [joined, lookupLoop_some last]
      refine lookupLoop_none ?_
      cases ops : obj.ops with
      | directory => simp only [lookupName, here, ops, directoryLookupName]
      | other type => simp only [lookupName, here, ops, noLookupName]
    | cons element more =>
      rw [joined, lookupLoop_some]
      · exact ih (cons_ne_nil _ _)
      · rw [lookupName_dir dir]
        simp only [directoryLookupName, getPathElement_append plain, entry]
        simp
      · rintro ⟨⟩

theorem lookupNamedObject_rooted (inv : Inv casemap s refs) (rooted : Rooted s id elements)
    (some? : elements ≠ []) : s.lookupNamedObject casemap none (fullPath elements) = .ok (id, []) := by
  have nonempty : joined elements ≠ [] := by
    cases rooted with
    | self => exact absurd rfl some?
    | @child d child id name elements named below =>
      obtain ⟨-, nonempty, -⟩ := inv.tree.named child _ named
      cases elements with
      | nil => exact nonempty
      | cons element more =>
        rw [joined]
        · exact fun empty => nonempty (append_eq_nil_iff.mp empty).1
        · nofun
  rw [fullPath_eq some?]
  simp only [lookupNamedObject, head?_cons, ne_eq, not_true_eq_false, if_false, Bind.bind, Except.bind,
    drop_succ_cons, drop_zero, nonempty, lookupLoop_below inv rooted some?]
  rfl

end Lookup

/-! ### Writing the name -/

section Names

variable {casemap : CaseMap} {s : State} {refs : Nat → Nat}

theorem names_eq (inv : Inv casemap s refs) {depth : Nat} (rooted : Rooted s id elements)
    (deep : id < depth) : s.names depth id = elements.reverse := by
  induction depth generalizing id elements with
  | zero => nomatch deep
  | succ depth ih =>
    by_cases some? : elements = []
    · subst some?
      cases rooted
      have unnamed : (s.objects s.root).bind Object.name = none := inv.tree.rootName
      rw [names, unnamed]
      rfl
    · obtain ⟨parent, front, name, rfl, named, above⟩ := Below.snoc rooted some?
      have up : parent < id := (inv.tree.named id _ named).1
      have here : (s.objects id).bind Object.name = some ⟨name, parent⟩ := named
      rw [names, here]
      dsimp only
      rw [ih above (by omega), reverse_append]
      rfl

theorem writeNames_eq (names : List Name) (len : Nat) (written : Name) :
    writeNames len written names =
      if bytes names ≤ len then .ok (fullPath names.reverse ++ written) else .error .memory := by
  induction names generalizing len written with
  | nil => exact (if_pos (Nat.zero_le len)).symm
  | cons name rest ih =>
    have total : bytes (name :: rest) = (2 * name.length + 2) + bytes rest := rfl
    rw [writeNames, total]
    split_ifs with short fits fits
    · omega
    · rfl
    · rw [ih, if_pos (by omega)]
      simp [fullPath]
    · rw [ih, if_neg (by omega)]

theorem nameLength_eq (names : List Name) : nameLength names = bytes names % 2 ^ 32 := by
  suffices general : ∀ len, names.foldl (fun len name => (len + (2 * name.length + 2)) % 2 ^ 32) (len % 2 ^ 32) =
      (len + bytes names) % 2 ^ 32 by
    have start := general 0
    rwa [Nat.zero_add] at start
  induction names with
  | nil => exact fun len => rfl
  | cons name rest ih =>
    intro len
    have total : bytes (name :: rest) = (2 * name.length + 2) + bytes rest := rfl
    rw [foldl_cons, Nat.mod_add_mod, ih, total, Nat.add_assoc]

theorem bytes_reverse (names : List Name) : bytes names.reverse = bytes names := by
  unfold bytes
  rw [map_reverse, sum_reverse]

theorem bytes_pos (some? : elements ≠ []) : 0 < bytes elements := by
  cases elements with
  | nil => exact absurd rfl some?
  | cons name rest =>
    have total : bytes (name :: rest) = (2 * name.length + 2) + bytes rest := rfl
    omega

/-- **Full names.** The name is written if its length is a 32-bit number; otherwise there is none, or it is
written outside of the block that was allocated. -/
theorem defaultGetFullName_eq (inv : Inv casemap s refs) (max : Nat) (rooted : Rooted s id elements)
    (some? : elements ≠ []) :
    s.defaultGetFullName id max =
      if bytes elements < 2 ^ 32 then .ok (some (fullPath elements, bytes elements > max))
      else if bytes elements % 2 ^ 32 = 0 then .ok none else .error .memory := by
  have positive := bytes_pos some?
  unfold defaultGetFullName
  rw [names_eq inv rooted (Nat.lt_succ_self _)]
  dsimp only
  rw [nameLength_eq, bytes_reverse]
  by_cases short : bytes elements < 2 ^ 32
  · rw [if_pos short, Nat.mod_eq_of_lt short, if_neg (by omega), writeNames_eq, bytes_reverse,
      if_pos le_rfl, reverse_reverse, append_nil]
    rfl
  · rw [if_neg short]
    by_cases zero : bytes elements % 2 ^ 32 = 0
    · rw [if_pos zero, if_pos zero]
    · rw [if_neg zero, if_neg zero, writeNames_eq, bytes_reverse, if_neg (by omega)]
      rfl

end Names

end FreeWindows.Objects
