/-
**Inserting and removing the range of a view.**

`FreeExactly ranges views`: the free ranges are sorted, not empty and not adjacent, and they hold
exactly the addresses in no granule of a view. `free_ranges_insert_view` and
`free_ranges_remove_view` look up one range with the rounded base of the view and update that one.
When the base is in a granule that another view uses, and a free range ends there, this is the wrong
range (`Awkward`). Otherwise both keep the free ranges exact:

* `freeRangesInsertView_exact`: all granules of the view that are free are in the range found,
  because they are next to each other (`free_between`);
* `freeRangesRemoveView_exact`: the view's own granules are in front of the range found, or right
  behind it.
-/

import FreeWindows.Virtual.Granules
import FreeWindows.Lib.Ensures

namespace FreeWindows.Virtual

open Lib List Option Fault

/-- **The free ranges are exact.** -/
structure FreeExactly (ranges : List RangeEntry) (views : List View) : Prop where
  separated : Separated ranges
  covers : ∀ addr, Covers ranges addr ↔ addr < topAddress ∧ ¬Occupied views addr

/-- The view starts in a granule that one of the others uses, the granule in front of it is free,
and some granule of the view is its own. -/
def Awkward (others : List View) (view : View) : Prop :=
  Occupied others view.rangeBase ∧ 0 < view.rangeBase ∧ ¬Occupied others (view.rangeBase - 1) ∧
    ∃ addr, view.Uses addr ∧ ¬Occupied others addr

/-! ### The range that is looked up -/

section Ranges

variable {ranges : List RangeEntry} (separated : Separated ranges) (addr : Nat)
include separated addr

theorem hi_lt_initial :
    ∀ i j, i ≤ j → j < ranges.length →
      ((ranges[j]?).any fun range => range.hi < addr) = true →
      ((ranges[i]?).any fun range => range.hi < addr) = true := by
  intro i j le lt before
  rcases Nat.eq_or_lt_of_le le with rfl | less
  · exact before
  rw [getElem?_eq_getElem lt, any_some, decide_eq_true_iff] at before
  rw [getElem?_eq_getElem (by omega), any_some, decide_eq_true_iff]
  have apart := pairwise_iff_getElem.mp separated.apart i j (by omega) lt less
  have nonempty := separated.nonempty ranges[j] (getElem_mem lt)
  omega

/-- **The binary search** splits the ranges into those that end before the address and the rest. -/
theorem freeRangesLowerBound_split :
    (∀ range ∈ ranges.take (freeRangesLowerBound ranges addr), range.hi < addr) ∧
      ∀ range ∈ ranges.drop (freeRangesLowerBound ranges addr), addr ≤ range.hi := by
  have initial := hi_lt_initial separated addr
  have below : ∀ i, 0 ≤ i → i < freeRangesLowerBound ranges addr → _ := partitionPoint_below initial
  have above : ∀ i, freeRangesLowerBound ranges addr ≤ i → i < ranges.length → _ :=
    partitionPoint_above initial
  constructor
  · intro range member
    obtain ⟨i, lt, rfl⟩ := mem_take_iff_getElem.mp member
    have before := below i (Nat.zero_le _) (by omega)
    rw [getElem?_eq_getElem (by omega), any_some, decide_eq_true_iff] at before
    exact before
  · intro range member
    obtain ⟨i, lt, rfl⟩ := mem_drop_iff_getElem.mp member
    have after := above _ (Nat.le_add_right _ i) (by omega)
    rw [getElem?_eq_getElem (by omega), any_some, decide_eq_false_iff_not] at after
    omega

end Ranges

/-! ### Taking from one range and giving to it -/

section Update

variable {before after : List RangeEntry} {range : RangeEntry} {base stop : Nat}

/-- Taking a part out of a range, when something else stays free. -/
theorem takeFromRange_spec (separated : Separated (before ++ range :: after))
    (lo_le : range.lo ≤ base) (lt : base < stop) (le_hi : stop ≤ range.hi)
    (rest : ∃ addr, Covers (before ++ range :: after) addr ∧ ¬(base ≤ addr ∧ addr < stop)) :
    Ensures (· = full) (takeFromRange before range after base stop) fun ranges =>
      Separated ranges ∧ ∀ addr, Covers ranges addr ↔
        Covers (before ++ range :: after) addr ∧ ¬(base ≤ addr ∧ addr < stop) := by
  have front : ∀ addr, Covers before addr → addr < range.lo := fun addr => separated.front
  have back : ∀ addr, Covers after addr → range.hi < addr := fun addr => separated.back
  -- what is left of the range, as a list of pieces
  have pieces : ∀ pieces, Separated pieces →
      (∀ piece ∈ pieces, range.lo ≤ piece.lo ∧ piece.hi ≤ range.hi) →
      (∀ addr, Covers pieces addr ↔ range.Has addr ∧ ¬(base ≤ addr ∧ addr < stop)) →
      Separated (before ++ (pieces ++ after)) ∧ ∀ addr, Covers (before ++ (pieces ++ after)) addr ↔
        Covers (before ++ range :: after) addr ∧ ¬(base ≤ addr ∧ addr < stop) := by
    intro pieces inner inside covers
    refine ⟨separated.replace inner (fun piece member => .inl (inside piece member).1)
      fun piece member => .inl (inside piece member).2, fun addr => ?_⟩
    rw [covers_append, covers_append, covers_append, covers_cons, covers]
    grind
  unfold takeFromRange
  rw [if_neg (not_not.mpr ⟨lo_le, le_hi⟩)]
  split
  · next twoParts =>
    split
    · exact rfl
    · refine pieces [⟨range.lo, base⟩, ⟨stop, range.hi⟩] ?_ ?_ fun addr => ?_
      · refine (separated_append [_] [_]).mpr ⟨separated_singleton twoParts.1,
          separated_singleton twoParts.2, ?_⟩
        simpa using lt
      · simp only [mem_cons, not_mem_nil, or_false, forall_eq_or_imp, forall_eq]
        omega
      · simp only [covers_cons, covers_nil, or_false, Span.Has]
        omega
  · next onePart =>
    have shrinks : ∀ shrunk : RangeEntry, shrunk.lo < shrunk.hi →
        (range.lo ≤ shrunk.lo ∧ shrunk.hi ≤ range.hi) →
        (∀ addr, shrunk.Has addr ↔ range.Has addr ∧ ¬(base ≤ addr ∧ addr < stop)) →
        Separated (before ++ shrunk :: after) ∧ ∀ addr, Covers (before ++ shrunk :: after) addr ↔
          Covers (before ++ range :: after) addr ∧ ¬(base ≤ addr ∧ addr < stop) := by
      intro shrunk nonempty inside has
      refine pieces [shrunk] (separated_singleton nonempty) (by simpa using inside) fun addr => ?_
      simpa using has addr
    by_cases lower : range.lo < base
    · simp only [if_pos lower]
      refine shrinks _ lower ⟨le_rfl, (by omega : base ≤ range.hi)⟩ fun addr => ?_
      simp only [Span.Has]
      omega
    · simp only [if_neg lower]
      split
      · next higher =>
        refine shrinks _ higher ⟨(by omega : range.lo ≤ stop), le_rfl⟩ fun addr => ?_
        simp only [Span.Has]
        omega
      · next empty =>
        have gone := pieces [] separated_nil (by simp) fun addr => by
          simp only [covers_nil, Span.Has, false_iff]
          omega
        split
        · -- something else is free, so the list is not empty
          next none =>
          obtain ⟨addr, covered, outside⟩ := rest
          have := (gone.2 addr).mpr ⟨covered, outside⟩
          rw [nil_append, none] at this
          exact absurd this (covers_nil addr)
        · exact gone

/-- Freeing a part right behind a range, or in front of it. -/
theorem giveToRange_spec (separated : Separated (before ++ range :: after)) (lt : base < stop)
    (lower : ∀ other ∈ before, other.hi < base)
    (place : (range.hi = base ∧ after ≠ [] ∧ ∀ other ∈ after, stop ≤ other.lo) ∨ stop ≤ range.lo) :
    Ensures (· = full) (giveToRange before range after base stop) fun ranges =>
      Separated ranges ∧ ∀ addr, Covers ranges addr ↔
        Covers (before ++ range :: after) addr ∨ (base ≤ addr ∧ addr < stop) := by
  obtain ⟨first, second, cross⟩ := (separated_append _ _).mp separated
  have nonempty := second.head
  unfold giveToRange
  rcases place with ⟨touches, more, upper⟩ | inFront
  · rw [if_neg (not_not.mpr (.inr more)), if_neg (by omega), if_neg (by omega), if_pos touches]
    cases after with
    | nil => exact absurd rfl more
    | cons next rest =>
      have le_next := upper next mem_cons_self
      have behind := (pairwise_cons.mp second.tail.apart).1
      have nextNonempty := second.tail.head
      dsimp only
      split
      · next adjacent =>
        -- the range, the part and the next range become one
        refine ⟨(separated_append _ _).mpr ⟨first, (separated_cons _ _).mpr
          ⟨(by omega : range.lo < next.hi), fun x => second.tail.behind, second.tail.tail⟩,
          fun other member piece inside => ?_⟩, fun addr => ?_⟩
        · rcases mem_cons.mp inside with rfl | inRest
          · exact cross other member range mem_cons_self
          · exact cross other member piece (by simp [inRest])
        · simp only [covers_append, covers_cons, Span.Has]
          grind
      · next gap =>
        refine ⟨separated.replace (separated_singleton (by omega : range.lo < stop))
          (by simp) fun piece member => .inr fun other inAfter => ?_, fun addr => ?_⟩
        · rw [mem_singleton.mp member]
          rcases mem_cons.mp inAfter with rfl | inRest
          · exact Nat.lt_of_le_of_ne le_next (Ne.symm gap)
          · exact lt_of_le_of_lt le_next (lt_trans nextNonempty (behind other inRest))
        · simp only [covers_append, covers_cons, Span.Has]
          grind
  · rw [if_neg (by omega), if_neg (by omega), if_neg (by omega), if_neg (by omega)]
    split
    · next adjacent =>
      refine ⟨separated.replace (separated_singleton (by omega : base < range.hi))
        (fun piece member => .inr fun other inBefore => ?_) (by simp), fun addr => ?_⟩
      · rw [mem_singleton.mp member]
        exact lower other inBefore
      · simp only [covers_append, covers_cons, Span.Has]
        grind
    · next gap =>
      split
      · exact rfl
      · have pair : Separated [⟨base, stop⟩, range] :=
          (separated_append [_] [_]).mpr ⟨separated_singleton lt, separated_singleton nonempty, by
            simp only [mem_singleton, forall_eq]
            omega⟩
        refine ⟨separated.replace pair (fun piece member => .inr fun other inBefore => ?_)
          (fun piece member => .inl ?_), fun addr => ?_⟩
        · have := lower other inBefore
          simp only [mem_cons, not_mem_nil, or_false] at member
          rcases member with rfl | rfl
          · exact this
          · omega
        · simp only [mem_cons, not_mem_nil, or_false] at member
          rcases member with rfl | rfl
          · exact (by omega : stop ≤ range.hi)
          · exact le_rfl
        · simp only [covers_append, covers_cons, Span.Has]
          grind

end Update

/-! ### The two operations -/

theorem occupied_cons (view : View) (views : List View) (addr : Nat) :
    Occupied (view :: views) addr ↔ view.Uses addr ∨ Occupied views addr := by
  simp [Occupied]

section Exact

variable {ranges : List RangeEntry} {others : List View} {view : View}

theorem covers_top (exactly : FreeExactly ranges others) (valid : ∀ other ∈ others, other.Valid) :
    Covers ranges (topAddress - 1) := by
  refine (exactly.covers _).mpr ⟨by decide, fun ⟨other, member, uses⟩ => ?_⟩
  have := (valid other member).rangeEnd_le
  simp only [View.Uses, addressSpaceLimit, topAddress] at *
  omega

variable {addr : Nat} {views : List View}

/-- The search finds a range, and it is not the last one when it ends at the address. -/
theorem freeRangesLowerBound_found (exactly : FreeExactly ranges others)
    (valid : ∀ other ∈ others, other.Valid) (limit : addr ≤ addressSpaceLimit) :
    ∃ range after, ranges.drop (freeRangesLowerBound ranges addr) = range :: after ∧
      addr ≤ range.hi ∧ (range.hi > addr ∨ after ≠ []) ∧
      ∀ other ∈ ranges.take (freeRangesLowerBound ranges addr), other.hi < addr := by
  obtain ⟨below, above⟩ := freeRangesLowerBound_split exactly.separated addr
  have top := covers_top exactly valid
  rw [← take_append_drop (freeRangesLowerBound ranges addr) ranges, covers_append] at top
  have rest := top.resolve_left fun ⟨range, member, inside⟩ => by
    have := below range member
    have := inside.2
    simp only [addressSpaceLimit, topAddress] at *
    omega
  cases split : ranges.drop (freeRangesLowerBound ranges addr) with
  | nil =>
    rw [split] at rest
    exact absurd rest (covers_nil _)
  | cons range after =>
    rw [split] at rest above
    refine ⟨range, after, rfl, above range mem_cons_self, ?_, below⟩
    by_contra neither
    rw [not_or, not_not] at neither
    rw [neither.2, covers_cons] at rest
    have := (rest.resolve_right (covers_nil _)).2
    simp only [addressSpaceLimit, topAddress] at *
    omega

theorem rangeBase_lt (valid : view.Valid) : view.rangeBase < view.rangeEnd := by
  have := valid.size_pos
  simp only [View.rangeBase, View.rangeEnd, roundAddr, granularity]
  omega

/-- Between a range and the ones behind it there is a gap. -/
theorem not_covers_hi {before after : List RangeEntry} {range : RangeEntry}
    (separated : Separated (before ++ range :: after)) :
    ¬Covers (before ++ range :: after) range.hi := by
  have nonempty := ((separated_append _ _).mp separated).2.1.head
  rw [covers_append, covers_cons]
  rintro (inFront | inside | behind)
  · exact absurd (separated.front inFront) (by omega)
  · exact absurd inside.2 (lt_irrefl _)
  · exact absurd (separated.back behind) (lt_irrefl _)

/-- The view takes exactly the addresses of `[base, stop)` out of the free ones. -/
theorem FreeExactly.insert {ranges' : List RangeEntry} (exactly : FreeExactly ranges others)
    (separated : Separated ranges')
    (covers : ∀ addr, Covers ranges' addr ↔ Covers ranges addr ∧ ¬view.Uses addr) :
    FreeExactly ranges' (view :: others) :=
  ⟨separated, fun addr => by
    rw [covers, exactly.covers, occupied_cons, not_or, and_assoc, and_comm (a := ¬_)]⟩

section Found

variable {before after : List RangeEntry} {range : RangeEntry}
  (exactly : FreeExactly (before ++ range :: after) others) (valid : view.Valid)
include exactly valid

/-- A free range that ends where the view's granules begin: none of them is free. -/
theorem not_uses_of_touching (plain : ¬Awkward others view) (touches : range.hi = view.rangeBase)
    (covered : Covers (before ++ range :: after) addr) : ¬view.Uses addr := by
  have nonempty := ((separated_append _ _).mp exactly.separated).2.1.head
  have limit := valid.rangeEnd_le
  have proper := rangeBase_lt valid
  intro uses
  refine plain ⟨?_, by omega, ?_, addr, uses, ((exactly.covers addr).mp covered).2⟩
  · by_contra free
    refine not_covers_hi exactly.separated ((exactly.covers _).mpr ⟨?_, touches ▸ free⟩)
    simp only [addressSpaceLimit, topAddress] at *
    omega
  · refine ((exactly.covers _).mp ?_).2
    exact (covers_append _ _ _).mpr (.inr ((covers_cons _ _ _).mpr (.inl ⟨by omega, by omega⟩)))

/-- A free range that ends behind the first address of the view: it has all that is free of the
view's granules. -/
theorem uses_iff_of_reaching (valid' : ∀ other ∈ others, other.Valid)
    (apart : ∀ other ∈ others, view.Apart other)
    (notBefore : ∀ addr, Covers before addr → addr < view.rangeBase)
    (reaches : view.rangeBase < range.hi) (covered : Covers (before ++ range :: after) addr) :
    view.Uses addr ↔ max range.lo view.rangeBase ≤ addr ∧ addr < min range.hi view.rangeEnd := by
  have nonempty := ((separated_append _ _).mp exactly.separated).2.1.head
  have inside : ∀ addr, range.Has addr → Covers (before ++ range :: after) addr := fun addr has =>
    (covers_append _ _ _).mpr (.inr ((covers_cons _ _ _).mpr (.inl has)))
  constructor
  · intro uses
    rcases (covers_append _ _ _).mp covered with inFront | rest
    · have := notBefore addr inFront
      have := uses.1
      omega
    rcases (covers_cons _ _ _).mp rest with has | behind
    · have := uses.1
      have := uses.2
      have := has.1
      have := has.2
      omega
    · -- the gap behind the range would be free as well
      have back := exactly.separated.back behind
      have uses' := uses
      simp only [View.Uses] at uses'
      have first : range.Has (max range.lo view.rangeBase) := ⟨by omega, by omega⟩
      have free := ((exactly.covers _).mp (inside _ first)).2
      have free' := ((exactly.covers _).mp covered)
      refine absurd ((exactly.covers range.hi).mpr ⟨by omega, ?_⟩) (not_covers_hi exactly.separated)
      refine free_between valid.size_pos (fun other member => (valid' other member).size_pos) apart
        (by omega) (le_of_lt back) ?_ uses free free'.2
      simp only [View.Uses]
      omega
  · intro between
    simp only [View.Uses]
    omega

end Found

/-- **Inserting a view** keeps the free ranges exact. -/
theorem freeRangesInsertView_exact (exactly : FreeExactly ranges others) (valid : view.Valid)
    (valid' : ∀ other ∈ others, other.Valid) (apart : ∀ other ∈ others, view.Apart other)
    (plain : ¬Awkward others view) :
    Ensures (· = full) (freeRangesInsertView ranges view) fun ranges' =>
      FreeExactly ranges' (view :: others) := by
  have top := covers_top exactly valid'
  have limit := valid.rangeEnd_le
  have proper := rangeBase_lt valid
  obtain ⟨range, after, split, found, more, below⟩ :=
    freeRangesLowerBound_found exactly valid' (le_trans (le_of_lt proper) limit)
  have whole := take_append_drop (freeRangesLowerBound ranges view.rangeBase) ranges
  unfold freeRangesInsertView
  dsimp only
  rw [split] at whole ⊢
  generalize ranges.take (freeRangesLowerBound ranges view.rangeBase) = before at *
  subst whole
  have nonempty := ((separated_append _ _).mp exactly.separated).2.1.head
  have notBefore : ∀ addr, Covers before addr → addr < view.rangeBase := by
    rintro addr ⟨range, member, inside⟩
    exact lt_trans inside.2 (below range member)
  dsimp only
  rw [if_neg (not_not.mpr more)]
  rcases Nat.eq_or_lt_of_le found with touches | reaches
  · -- nothing is taken, and nothing has to be
    have nothing : ∀ next : Bool, (if range.hi = view.rangeBase ∧ next then view.rangeBase
        else range.hi) ≤ view.rangeBase := by
      intro next
      split <;> omega
    rw [if_neg (by omega : ¬range.lo > view.rangeBase), if_pos (by omega : range.hi < view.rangeEnd),
      if_pos (nothing _)]
    exact exactly.insert exactly.separated fun addr => ⟨fun covered =>
      ⟨covered, not_uses_of_touching exactly valid plain touches.symm covered⟩, And.left⟩
  · have part : ∀ addr, Covers (before ++ range :: after) addr → (view.Uses addr ↔ _) :=
      fun addr => uses_iff_of_reaching exactly valid valid' apart notBefore reaches
    have base_eq : (if range.lo > view.rangeBase then range.lo else view.rangeBase) =
        max range.lo view.rangeBase := by
      split <;> omega
    have stop_eq : (if range.hi < view.rangeEnd then range.hi else view.rangeEnd) =
        min range.hi view.rangeEnd := by
      split <;> omega
    have kept : ∀ next : Bool, (if range.hi = max range.lo view.rangeBase ∧ next then
        max range.lo view.rangeBase else min range.hi view.rangeEnd) =
          min range.hi view.rangeEnd := by
      intro next
      exact if_neg (by omega)
    rw [base_eq, stop_eq, kept]
    split
    · next nothing =>
      refine exactly.insert exactly.separated fun addr => ⟨fun covered => ⟨covered, fun uses => ?_⟩,
        And.left⟩
      have := (part addr covered).mp uses
      omega
    · next some =>
      refine (takeFromRange_spec exactly.separated (Nat.le_max_left _ _) (lt_of_not_ge some)
        (Nat.min_le_left _ _) ⟨_, top, ?_⟩).mono fun ranges' ⟨separated, covers⟩ => ?_
      · simp only [addressSpaceLimit, topAddress] at *
        omega
      · refine exactly.insert separated fun addr => (covers addr).trans ?_
        exact and_congr_right fun covered => not_congr (part addr covered).symm

theorem Tree.nodup (tree : Tree views) : views.Nodup := by
  refine tree.sorted.imp_of_mem fun {first second} member _ inFront => ?_
  rintro rfl
  exact absurd (InFront.base_lt inFront (tree.valid first member).size_pos) (lt_irrefl _)

theorem occupied_erase (member : view ∈ views) (addr : Nat) :
    Occupied views addr ↔ view.Uses addr ∨ Occupied (views.erase view) addr := by
  rw [← occupied_cons]
  exact exists_congr fun other => and_congr_left fun _ =>
    (perm_cons_erase member).mem_iff

theorem own_iff_free (tree : Tree views) (member : view ∈ views) (low : ¬LowNeighbour views view)
    (uses : view.Uses addr) :
    (ownBase views view ≤ addr ∧ addr < ownEnd views view) ↔
      ¬Occupied (views.erase view) addr := by
  rw [own_iff tree member low uses]
  simp only [Occupied, tree.nodup.mem_erase_iff, not_exists, not_and]
  grind

variable (exactly : FreeExactly ranges views) (tree : Tree views) (member : view ∈ views)
  (low : ¬LowNeighbour views view)
include exactly tree member low

/-- A view that goes gives back its own granules. -/
theorem FreeExactly.remove {ranges' : List RangeEntry} (separated : Separated ranges')
    (covers : ∀ addr, Covers ranges' addr ↔
      Covers ranges addr ∨ (ownBase views view ≤ addr ∧ addr < ownEnd views view)) :
    FreeExactly ranges' (views.erase view) := by
  refine ⟨separated, fun addr => ?_⟩
  rw [covers, exactly.covers, occupied_erase member]
  have limit := (tree.valid view member).rangeEnd_le
  have lower := le_ownBase views view
  have upper := ownEnd_le views view
  have own : view.Uses addr → (_ ↔ ¬Occupied (views.erase view) addr) :=
    own_iff_free tree member low
  have below : view.Uses addr → addr < topAddress := by
    simp only [View.Uses, addressSpaceLimit, topAddress] at *
    omega
  have inside : ownBase views view ≤ addr ∧ addr < ownEnd views view → view.Uses addr := by
    simp only [View.Uses]
    omega
  grind

/-- **Removing a view** keeps the free ranges exact. -/
theorem freeRangesRemoveView_exact (plain : ¬Awkward (views.erase view) view) :
    Ensures (· = full) (freeRangesRemoveView views ranges view) fun ranges' =>
      FreeExactly ranges' (views.erase view) := by
  have valid := tree.valid view member
  have limit := valid.rangeEnd_le
  have proper := rangeBase_lt valid
  have lower := le_ownBase views view
  have upper := ownEnd_le views view
  unfold freeRangesRemoveView
  dsimp only
  split
  · next nothing =>
    exact exactly.remove tree member low exactly.separated fun addr =>
      (or_iff_left fun own => by omega).symm
  · next some =>
    have used : ∀ addr, view.Uses addr → ¬Covers ranges addr := fun addr uses covered =>
      ((exactly.covers addr).mp covered).2 ((occupied_erase member addr).mpr (.inl uses))
    have ownFirst : view.Uses (ownBase views view) := by
      simp only [View.Uses]
      omega
    have whole := take_append_drop (freeRangesLowerBound ranges view.rangeBase) ranges
    obtain ⟨range, after, split, found, more, below⟩ :=
      freeRangesLowerBound_found exactly tree.valid (le_trans (le_of_lt proper) limit)
    rw [split] at whole ⊢
    generalize ranges.take (freeRangesLowerBound ranges view.rangeBase) = before at *
    subst whole
    obtain ⟨-, second, -⟩ := (separated_append _ _).mp exactly.separated
    have nonempty := second.head
    have inside : ∀ addr, Covers (range :: after) addr → Covers (before ++ range :: after) addr :=
      fun addr covered => (covers_append _ _ _).mpr (.inr covered)
    refine (giveToRange_spec exactly.separated (lt_of_not_ge some)
      (fun other member => lt_of_lt_of_le (below other member) lower) ?_).mono
        fun ranges' given => exactly.remove tree member low given.1 given.2
    rcases Nat.eq_or_lt_of_le found with touches | reaches
    · -- the range that ends at the first granule is the right one: that granule is not shared
      have same : ownBase views view = view.rangeBase := by
        by_contra shared
        have first : view.Uses view.rangeBase := ⟨le_rfl, proper⟩
        refine plain ⟨?_, by omega, fun occupied => ?_, _, ownFirst,
          (own_iff_free tree member low ownFirst).mp (by omega)⟩
        · by_contra free
          have := (own_iff_free tree member low first).mpr free
          omega
        · refine ((exactly.covers _).mp (inside (view.rangeBase - 1) ?_)).2
            ((occupied_erase member _).mpr (.inr occupied))
          exact (covers_cons _ _ _).mpr (.inl ⟨by omega, by omega⟩)
      refine .inl ⟨by omega, more.resolve_left (by omega), fun other member => ?_⟩
      by_contra overlaps
      have behind := (pairwise_cons.mp second.apart).1 other member
      refine used other.lo (by simp only [View.Uses]; omega) (inside _ ?_)
      exact covers_of_lo (mem_cons_of_mem _ member) (second.nonempty other (mem_cons_of_mem _ member))
    · refine .inr ?_
      by_contra overlaps
      refine used (max range.lo view.rangeBase) (by simp only [View.Uses]; omega) (inside _ ?_)
      exact (covers_cons _ _ _).mpr (.inl ⟨by omega, by omega⟩)

end Exact

end FreeWindows.Virtual
