/-
**Binary search.**

`partitionPoint p lo hi` is the halving loop that looks for the end of the initial part of
`[lo, hi)` on which `p` holds, testing one index in each round. On a test that holds on an initial
part only, the loop finds where that part ends (`partitionPoint_below`, `partitionPoint_above`).

`bisect compare lo hi` is the halving loop with a comparison of three outcomes, which ends at once at
an index that compares equal. On a comparison that rises, it finds the equal index, or the place
between the smaller and the larger ones (`bisect_found`, `bisect_gap`); `searchList` is the search in
a list (`searchList_found`, `searchList_gap`).
-/

import Mathlib

namespace FreeWindows.Lib

open List

/-- The loop of a lower-bound search. -/
def partitionPoint (p : Nat → Bool) (lo hi : Nat) : Nat :=
  if lo < hi then
    let mid := lo + (hi - lo) / 2
    if p mid then partitionPoint p (mid + 1) hi else partitionPoint p lo mid
  else lo
termination_by hi - lo

section Search

variable {p : Nat → Bool} {lo hi : Nat} (initial : ∀ i j, i ≤ j → j < hi → p j = true → p i = true)
include initial

/-- Everything in front of the result passes the test. -/
theorem partitionPoint_below : ∀ i, lo ≤ i → i < partitionPoint p lo hi → p i = true := by
  fun_induction partitionPoint p lo hi with
  | case1 lo hi lt mid passes ih =>
    intro i le before
    by_cases near : i ≤ mid
    · exact initial i mid near (by omega) passes
    · exact ih initial i (by omega) before
  | case2 lo hi lt mid fails ih =>
    exact ih fun i j le below => initial i j le (by omega)
  | case3 lo hi done =>
    intro i le before
    omega

/-- Nothing from the result on passes the test. -/
theorem partitionPoint_above : ∀ i, partitionPoint p lo hi ≤ i → i < hi → p i = false := by
  fun_induction partitionPoint p lo hi with
  | case1 lo hi lt mid passes ih => exact ih initial
  | case2 lo hi lt mid fails ih =>
    intro i after below
    by_cases near : i < mid
    · exact ih (fun i j le below => initial i j le (by omega)) i after near
    · refine Bool.eq_false_iff.mpr fun passes => fails (initial mid i (by omega) below passes)
  | case3 lo hi done =>
    intro i after below
    omega

end Search

/-- What a three-way search returns: an equal element, or where one could be put. -/
inductive Place
  | found (index : Nat)
  | gap (index : Nat)
deriving DecidableEq, Repr

/-- The loop of a three-way search; the last index that can be equal is `hi - 1`. -/
def bisect (compare : Nat → Int) (lo hi : Nat) : Place :=
  if lo < hi then
    let mid := (lo + (hi - 1)) / 2
    if compare mid = 0 then .found mid
    else if 0 < compare mid then bisect compare lo mid
    else bisect compare (mid + 1) hi
  else .gap lo
termination_by hi - lo

section Bisect

variable {compare : Nat → Int} {lo hi index : Nat}

theorem bisect_found (found : bisect compare lo hi = .found index) :
    index < hi ∧ compare index = 0 := by
  fun_induction bisect compare lo hi with
  | case1 lo hi lt mid equal =>
    have same : mid = index := Place.found.inj found
    exact ⟨by omega, same ▸ equal⟩
  | case2 lo hi lt mid _ _ ih =>
    have := ih found
    exact ⟨by omega, this.2⟩
  | case3 lo hi lt mid _ _ ih => exact ih found
  | case4 => cases found

/-- **The place between the smaller and the larger ones.** -/
theorem bisect_gap_le (le : lo ≤ hi) (missing : bisect compare lo hi = .gap index) : index ≤ hi := by
  fun_induction bisect compare lo hi with
  | case1 => cases missing
  | case2 lo hi lt mid _ _ ih =>
    have := ih (by omega) missing
    omega
  | case3 lo hi lt mid _ _ ih => exact ih (by omega) missing
  | case4 lo hi _ =>
    cases missing
    exact le

theorem bisect_gap (rising : ∀ i j, i < j → j < hi → 0 ≤ compare i → 0 < compare j) (le : lo ≤ hi)
    (missing : bisect compare lo hi = .gap index) :
    index ≤ hi ∧ (∀ j, lo ≤ j → j < index → compare j < 0) ∧
      ∀ j, index ≤ j → j < hi → 0 < compare j := by
  fun_induction bisect compare lo hi with
  | case1 => cases missing
  | case2 lo hi lt mid _ above ih =>
    have shorter : ∀ i j, i < j → j < mid → 0 ≤ compare i → 0 < compare j :=
      fun i j less below => rising i j less (by omega)
    obtain ⟨bound, smaller, larger⟩ := ih shorter (by omega) missing
    refine ⟨by omega, smaller, fun j after below => ?_⟩
    rcases Nat.lt_trichotomy j mid with before | same | behind
    · exact larger j after before
    · rw [same]
      exact above
    · exact rising mid j behind below (by omega)
  | case3 lo hi lt mid notEqual notAbove ih =>
    obtain ⟨bound, smaller, larger⟩ := ih rising (by omega) missing
    refine ⟨bound, fun j after before => ?_, larger⟩
    by_cases near : mid < j
    · exact smaller j (by omega) before
    -- an index in front of a smaller one is smaller, since the comparison rises
    · refine Int.not_le.mp fun notBelow => ?_
      rcases Nat.lt_or_eq_of_le (Nat.not_lt.mp near) with less | same
      · have := rising j mid less (by omega) notBelow
        omega
      · subst same
        omega
  | case4 lo hi done =>
    cases missing
    exact ⟨le, fun j _ _ => by omega, fun j _ _ => by omega⟩

end Bisect

/-- The three-way search in a list. -/
def searchList {α : Type} (compare : α → Int) (items : List α) : Place :=
  bisect (fun i => (items[i]?.map compare).getD 0) 0 items.length

section List

variable {α : Type} {compare : α → Int} {items : List α} {index : Nat}

theorem searchList_congr {compare' : α → Int} (same : ∀ item ∈ items, compare' item = compare item) :
    searchList compare' items = searchList compare items := by
  unfold searchList
  congr 1
  funext i
  cases place : items[i]? with
  | none => rfl
  | some item => exact same item (mem_of_getElem? place)

theorem searchList_found (found : searchList compare items = .found index) :
    ∃ item, items[index]? = some item ∧ compare item = 0 := by
  obtain ⟨bound, equal⟩ := bisect_found found
  refine ⟨items[index], getElem?_eq_getElem bound, ?_⟩
  simpa [getElem?_eq_getElem bound] using equal

/-- **The place of a missing element**: the smaller ones are in front of it, the larger behind. -/
theorem searchList_gap (rising : items.Pairwise fun a b => 0 ≤ compare a → 0 < compare b)
    (missing : searchList compare items = .gap index) :
    index ≤ items.length ∧ (∀ item ∈ items.take index, compare item < 0) ∧
      ∀ item ∈ items.drop index, 0 < compare item := by
  have at_ : ∀ i (lt : i < items.length), (items[i]?.map compare).getD 0 = compare items[i] :=
    fun i lt => by simp [getElem?_eq_getElem lt]
  have rises : ∀ i j, i < j → j < items.length → 0 ≤ (items[i]?.map compare).getD 0 →
      0 < (items[j]?.map compare).getD 0 := by
    intro i j less lt
    rw [at_ i (by omega), at_ j lt]
    exact pairwise_iff_getElem.mp rising i j (by omega) lt less
  obtain ⟨bound, smaller, larger⟩ := bisect_gap rises (Nat.zero_le _) missing
  refine ⟨bound, fun item member => ?_, fun item member => ?_⟩
  · obtain ⟨i, lt, same⟩ := getElem_of_mem member
    rw [length_take] at lt
    rw [← same, getElem_take, ← at_ i (by omega)]
    exact smaller i (Nat.zero_le _) (by omega)
  · obtain ⟨i, lt, same⟩ := getElem_of_mem member
    rw [length_drop] at lt
    rw [← same, getElem_drop, ← at_ (index + i) (by omega)]
    exact larger (index + i) (by omega) (by omega)

end List

end FreeWindows.Lib
