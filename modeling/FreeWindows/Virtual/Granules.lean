/-
**Views and their granules.**

Views are apart in bytes, but the granules of two views can be the same. Whether an address is free
depends on the granules only (`Occupied`). Two facts about a view among others that it does not
overlap carry the proofs about the free ranges:

* `free_between`: the granules of a view that no other view uses are all next to each other, since
  only the first and the last granule of a view can be shared;
* `own_iff`: which granules these are is known from the view in front and the view behind.
-/

import FreeWindows.Virtual.Model

namespace FreeWindows.Virtual

open Lib List View

/-- The address is in a granule of the view. -/
def View.Uses (view : View) (addr : Nat) : Prop := view.rangeBase ≤ addr ∧ addr < view.rangeEnd

/-- The address is in a granule of one of the views. -/
def Occupied (views : List View) (addr : Nat) : Prop := ∃ view ∈ views, view.Uses addr

/-- A view that has pages and lies in the address space. -/
structure View.Valid (view : View) : Prop where
  size_pos : 0 < view.size
  limit : view.base + view.size ≤ addressSpaceLimit

/-- The first view ends where the second one begins, or before. -/
def View.InFront (first second : View) : Prop := first.base + first.size ≤ second.base

/-- Two views that have no byte in common. -/
def View.Apart (view other : View) : Prop := view.InFront other ∨ other.InFront view

instance : Std.Symm View.Apart := ⟨fun _ _ => Or.symm⟩

variable {view : View} {addr : Nat}

theorem uses_iff (nonempty : 0 < view.size) (addr : Nat) :
    view.Uses addr ↔ view.base / granularity ≤ addr / granularity ∧
      addr / granularity ≤ (view.base + view.size - 1) / granularity := by
  simp only [View.Uses, rangeBase, rangeEnd, roundAddr, granularity]
  omega

theorem View.Valid.rangeEnd_le (valid : view.Valid) : view.rangeEnd ≤ addressSpaceLimit := by
  have := valid.limit
  simp only [rangeEnd, roundAddr, granularity, addressSpaceLimit] at *
  omega

section Others

variable {others : List View}

/-- **The granules that are a view's own are next to each other.** -/
theorem free_between (nonempty : 0 < view.size) (sizes : ∀ other ∈ others, 0 < other.size)
    (apart : ∀ other ∈ others, view.Apart other) {first middle last : Nat} (le : first ≤ middle)
    (le' : middle ≤ last) (usesFirst : view.Uses first) (usesLast : view.Uses last)
    (free : ¬Occupied others first) (free' : ¬Occupied others last) : ¬Occupied others middle := by
  rintro ⟨other, member, uses⟩
  have notFirst : ¬other.Uses first := fun uses => free ⟨other, member, uses⟩
  have notLast : ¬other.Uses last := fun uses => free' ⟨other, member, uses⟩
  have otherPos := sizes other member
  rw [uses_iff otherPos] at uses notFirst notLast
  rw [uses_iff nonempty] at usesFirst usesLast
  rcases apart other member with inFront | behind
  · simp only [View.InFront, granularity] at *
    omega
  · simp only [View.InFront, granularity] at *
    omega

end Others

/-! ### Neighbours in the tree -/

/-- The views of the tree, in order. -/
structure Tree (views : List View) : Prop where
  sorted : views.Pairwise View.InFront
  valid : ∀ view ∈ views, view.Valid

section Neighbours

variable {views : List View} {other : View}

theorem InFront.base_lt {first second : View} (inFront : first.InFront second)
    (nonempty : 0 < first.size) : first.base < second.base := by
  simp only [View.InFront] at inFront
  omega

theorem Tree.apart (tree : Tree views) (member : view ∈ views) (member' : other ∈ views)
    (different : other ≠ view) : view.Apart other := by
  have apart : views.Pairwise View.Apart := tree.sorted.imp .inl
  exact apart.forall member member' different.symm

/-- The view in front of a view: all others in front of the view are in front of that one too. -/
theorem prevView_spec (tree : Tree views) {prev : View} (found : prevView views view = some prev) :
    prev ∈ views ∧ prev.base < view.base ∧
      ∀ other ∈ views, other.base < view.base → other = prev ∨ other.InFront prev := by
  obtain ⟨front, split⟩ := getLast?_eq_some_iff.mp found
  have mem : ∀ other, other ∈ front ++ [prev] ↔ other ∈ views ∧ other.base < view.base := by
    intro other
    rw [← split, mem_filter, decide_eq_true_iff]
  have sorted : (front ++ [prev]).Pairwise View.InFront := split ▸ tree.sorted.filter _
  obtain ⟨-, -, cross⟩ := pairwise_append.mp sorted
  obtain ⟨inTree, before⟩ := (mem prev).mp (by simp)
  refine ⟨inTree, before, fun other inTree before => ?_⟩
  rcases mem_append.mp ((mem other).mpr ⟨inTree, before⟩) with earlier | same
  · exact .inr (cross other earlier prev (by simp))
  · exact .inl (mem_singleton.mp same)

/-- The view behind a view: it is in front of all others behind the view. -/
theorem nextView_spec (tree : Tree views) {next : View} (found : nextView views view = some next) :
    next ∈ views ∧ view.base < next.base ∧
      ∀ other ∈ views, view.base < other.base → other = next ∨ next.InFront other := by
  obtain ⟨rest, split⟩ := head?_eq_some_iff.mp found
  have mem : ∀ other, other ∈ next :: rest ↔ other ∈ views ∧ view.base < other.base := by
    intro other
    rw [← split, mem_filter, decide_eq_true_iff]
  have sorted : (next :: rest).Pairwise View.InFront := split ▸ tree.sorted.filter _
  obtain ⟨cross, -⟩ := pairwise_cons.mp sorted
  obtain ⟨inTree, after⟩ := (mem next).mp mem_cons_self
  refine ⟨inTree, after, fun other inTree after => ?_⟩
  rcases mem_cons.mp ((mem other).mpr ⟨inTree, after⟩) with same | later
  · exact .inl same
  · exact .inr (cross other later)

/-- Another view starts behind `view` in the lowest granule, where `next_view_base` is null. -/
def LowNeighbour (views : List View) (view : View) : Prop :=
  ∃ other ∈ views, view.base < other.base ∧ other.rangeBase = 0

section Own

variable (tree : Tree views) (member : view ∈ views)
include tree member

theorem Tree.inFront (member' : other ∈ views) (before : view.base < other.base) :
    view.InFront other := by
  have valid := tree.valid other member'
  refine (tree.apart member member' (by rintro rfl; omega)).resolve_right fun behind => ?_
  have := InFront.base_lt behind valid.size_pos
  omega

omit member in
/-- The view's own granules begin behind those that a view in front uses. -/
theorem ownBase_le_iff (uses : view.Uses addr) :
    ownBase views view ≤ addr ↔
      ∀ other ∈ views, other.base < view.base → ¬other.Uses addr := by
  unfold ownBase
  cases found : prevView views view with
  | none =>
    exact iff_of_true uses.1 fun other inTree before =>
      absurd (decide_eq_true before) (filter_eq_nil_iff.mp (getLast?_eq_none_iff.mp found) other inTree)
  | some prev =>
    obtain ⟨inTree, before, last⟩ := prevView_spec tree found
    have ends : ∀ other ∈ views, other.base < view.base → other.rangeEnd ≤ prev.rangeEnd := by
      intro other inTree' before'
      rcases last other inTree' before' with rfl | inFront
      · exact le_rfl
      · simp only [View.InFront, rangeEnd, roundAddr, granularity] at *
        omega
    have bases : prev.rangeBase ≤ view.rangeBase := by
      simp only [rangeBase, roundAddr, granularity]
      omega
    simp only [View.Uses] at uses ⊢
    split
    · refine ⟨fun le other inTree' before' used => ?_, fun unused => ?_⟩
      · have := ends other inTree' before'
        omega
      · have := unused prev inTree before
        omega
    · refine iff_of_true uses.1 fun other inTree' before' used => ?_
      have := ends other inTree' before'
      omega

/-- The view's own granules end in front of those that a view behind uses. -/
theorem lt_ownEnd_iff (low : ¬LowNeighbour views view) (uses : view.Uses addr)
    (own : ownBase views view ≤ addr) :
    addr < ownEnd views view ↔
      ∀ other ∈ views, view.base < other.base → ¬other.Uses addr := by
  unfold ownEnd
  cases found : nextView views view with
  | none =>
    exact iff_of_true uses.2 fun other inTree after =>
      absurd (decide_eq_true after) (filter_eq_nil_iff.mp (head?_eq_none_iff.mp found) other inTree)
  | some next =>
    obtain ⟨inTree, after, first⟩ := nextView_spec tree found
    have nextBehind := tree.inFront member inTree after
    have nonzero : next.rangeBase ≠ 0 := fun zero => low ⟨next, inTree, after, zero⟩
    have bases : ∀ other ∈ views, view.base < other.base → next.rangeBase ≤ other.rangeBase := by
      intro other inTree' after'
      rcases first other inTree' after' with rfl | inFront
      · exact le_rfl
      · simp only [View.InFront, rangeBase, roundAddr, granularity] at *
        omega
    have ends : view.rangeEnd ≤ next.rangeEnd := by
      simp only [View.InFront, rangeEnd, roundAddr, granularity] at *
      omega
    simp only [View.Uses] at uses ⊢
    split
    · refine ⟨fun lt other inTree' after' used => ?_, fun unused => ?_⟩
      · have := bases other inTree' after'
        omega
      · have := unused next inTree after
        omega
    · refine iff_of_true uses.2 fun other inTree' after' used => ?_
      have := bases other inTree' after'
      omega

end Own

theorem le_ownBase (views : List View) (view : View) : view.rangeBase ≤ ownBase views view := by
  unfold ownBase
  split
  · split <;> omega
  · exact le_rfl

theorem ownEnd_le (views : List View) (view : View) : ownEnd views view ≤ view.rangeEnd := by
  unfold ownEnd
  split
  · split <;> omega
  · exact le_rfl

/-- **A view's own granules**: those of its granules that no other view of the tree uses. -/
theorem own_iff (tree : Tree views) (member : view ∈ views) (low : ¬LowNeighbour views view)
    (uses : view.Uses addr) :
    (ownBase views view ≤ addr ∧ addr < ownEnd views view) ↔
      ∀ other ∈ views, other ≠ view → ¬other.Uses addr := by
  constructor
  · rintro ⟨own, before⟩ other inTree different
    have unusedFront := (ownBase_le_iff tree uses).mp own
    have unusedBehind := (lt_ownEnd_iff tree member low uses own).mp before
    rcases tree.apart member inTree different with inFront | behind
    · exact unusedBehind other inTree (InFront.base_lt inFront (tree.valid view member).size_pos)
    · exact unusedFront other inTree (InFront.base_lt behind (tree.valid other inTree).size_pos)
  · intro unused
    have own := (ownBase_le_iff tree uses).mpr fun other inTree before =>
      unused other inTree (by rintro rfl; omega)
    exact ⟨own, (lt_ownEnd_iff tree member low uses own).mpr fun other inTree after =>
      unused other inTree (by rintro rfl; omega)⟩

end Neighbours

end FreeWindows.Virtual
