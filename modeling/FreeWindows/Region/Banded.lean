/-
**Banded rectangle lists.**

What `validate_rectangles` checks of neighbours holds of every two rectangles of the list
(`validateRectangles_iff`): the earlier one is either in the same band and strictly to the left, or
its band ends above the later one (`Follows`). From this:

* `Banded.split`: the leading rectangles with equal tops form a band (`IsBand`), one strip
  `[top, bottom)` of separated x-spans, and everything behind it starts at or below its bottom;
* `contains_isBand`: the points of a band are those of its strip over its x-spans.
-/

import FreeWindows.Lib.Span
import FreeWindows.Region.Model

namespace FreeWindows.Rgn

open Lib List

/-- The point `(x, y)` lies in the rectangle. -/
def Rectangle.Has (rect : Rectangle) (x y : Int) : Prop :=
  rect.left ≤ x ∧ x < rect.right ∧ rect.top ≤ y ∧ y < rect.bottom

instance (rect : Rectangle) (x y : Int) : Decidable (rect.Has x y) :=
  inferInstanceAs (Decidable (_ ∧ _))

/-- The point `(x, y)` lies in some rectangle of the list. -/
def Contains (rects : List Rectangle) (x y : Int) : Prop := ∃ rect ∈ rects, rect.Has x y

instance (rects : List Rectangle) (x y : Int) : Decidable (Contains rects x y) :=
  inferInstanceAs (Decidable (∃ rect ∈ rects, rect.Has x y))

@[simp] theorem contains_nil (x y : Int) : ¬ Contains [] x y := by
  rintro ⟨rect, member, _⟩
  cases member

@[simp] theorem contains_append (first second : List Rectangle) (x y : Int) :
    Contains (first ++ second) x y ↔ Contains first x y ∨ Contains second x y := by
  simp [Contains, or_and_right, exists_or]

/-- The horizontal extent of a rectangle. -/
def Rectangle.xspan (rect : Rectangle) : Span Int := ⟨rect.left, rect.right⟩

/-- The order of a y-x-banded list: same band and strictly to the right, or a lower band. -/
def Follows (first second : Rectangle) : Prop :=
  (first.top = second.top ∧ first.bottom = second.bottom ∧ first.right < second.left) ∨
    first.bottom ≤ second.top

/-- A rectangle with points in it. -/
def Rectangle.Proper (rect : Rectangle) : Prop := rect.left < rect.right ∧ rect.top < rect.bottom

/-- **A y-x-banded list**: proper rectangles, every two of them in banded order. -/
structure Banded (rects : List Rectangle) : Prop where
  order : rects.Pairwise Follows
  proper : ∀ rect ∈ rects, rect.Proper

/-- A list of rectangles that fill one strip `[top, bottom)` over separated x-spans. -/
structure IsBand (top bottom : Int) (rects : List Rectangle) : Prop where
  strip : ∀ rect ∈ rects, rect.top = top ∧ rect.bottom = bottom
  separated : Separated (rects.map Rectangle.xspan)

/-! ### Validated lists are banded -/

theorem not_isRectEmpty_iff (rect : Rectangle) : (!isRectEmpty rect) = true ↔ rect.Proper := by
  simp [isRectEmpty, Rectangle.Proper]

theorem Follows.trans {first second third : Rectangle} (proper : second.Proper)
    (one : Follows first second) (two : Follows second third) : Follows first third := by
  obtain ⟨horizontal, vertical⟩ := proper
  unfold Follows at *
  omega

theorem banded_nil : Banded [] :=
  ⟨List.Pairwise.nil, nofun⟩

theorem banded_cons (rect : Rectangle) (rects : List Rectangle) :
    Banded (rect :: rects) ↔
      rect.Proper ∧ (∀ other ∈ rects, Follows rect other) ∧ Banded rects := by
  constructor
  · rintro ⟨order, proper⟩
    obtain ⟨head, tail⟩ := pairwise_cons.mp order
    exact ⟨proper rect mem_cons_self, head, tail,
      fun other member => proper other (mem_cons_of_mem _ member)⟩
  · rintro ⟨proper, head, tail⟩
    refine ⟨pairwise_cons.mpr ⟨head, tail.order⟩, fun other member => ?_⟩
    rcases mem_cons.mp member with rfl | member
    · exact proper
    · exact tail.proper other member

theorem banded_append (first second : List Rectangle) :
    Banded (first ++ second) ↔
      Banded first ∧ Banded second ∧ ∀ p ∈ first, ∀ q ∈ second, Follows p q := by
  constructor
  · rintro ⟨order, proper⟩
    obtain ⟨left, right, cross⟩ := pairwise_append.mp order
    exact ⟨⟨left, fun rect member => proper rect (mem_append_left _ member)⟩,
      ⟨right, fun rect member => proper rect (mem_append_right _ member)⟩, cross⟩
  · rintro ⟨left, right, cross⟩
    refine ⟨pairwise_append.mpr ⟨left.order, right.order, cross⟩, fun rect member => ?_⟩
    rcases mem_append.mp member with member | member
    · exact left.proper rect member
    · exact right.proper rect member

/-- The neighbour check of `validate_rectangles`, for proper rectangles, is `Follows`. -/
theorem neighbour_iff (rect next : Rectangle) (proper : rect.Proper) :
    (if rect.top = next.top then decide (rect.bottom = next.bottom) && decide (rect.right < next.left)
      else decide (rect.bottom ≤ next.top)) = true ↔ Follows rect next := by
  obtain ⟨_, vertical⟩ := proper
  unfold Follows
  split
  · simp only [Bool.and_eq_true, decide_eq_true_eq]
    omega
  · simp only [decide_eq_true_eq]
    omega

/-- **`validate_rectangles` accepts exactly the banded lists.** -/
theorem validateRectangles_iff (rects : List Rectangle) :
    validateRectangles rects = true ↔ Banded rects := by
  fun_induction validateRectangles rects with
  | case1 => exact ⟨fun _ => banded_nil, fun _ => rfl⟩
  | case2 rect =>
    rw [not_isRectEmpty_iff, banded_cons]
    exact ⟨fun proper => ⟨proper, nofun, banded_nil⟩, fun h => h.1⟩
  | case3 rect next rest ih =>
    rw [Bool.and_eq_true, Bool.and_eq_true, ih, not_isRectEmpty_iff, banded_cons rect]
    constructor
    · rintro ⟨⟨proper, neighbour⟩, tail⟩
      have first : Follows rect next := (neighbour_iff rect next proper).mp neighbour
      refine ⟨proper, fun other member => ?_, tail⟩
      rcases mem_cons.mp member with rfl | member
      · exact first
      · obtain ⟨nextProper, behind, _⟩ := (banded_cons next rest).mp tail
        exact first.trans nextProper (behind other member)
    · rintro ⟨proper, behind, tail⟩
      exact ⟨⟨proper, (neighbour_iff rect next proper).mpr (behind next mem_cons_self)⟩, tail⟩

/-! ### Bands -/

theorem isBand_nil (top bottom : Int) : IsBand top bottom [] :=
  ⟨nofun, separated_nil⟩

variable {bottom top : Int} {rects : List Rectangle}

theorem contains_isBand (band : IsBand top bottom rects) (x y : Int) :
    Contains rects x y ↔ top ≤ y ∧ y < bottom ∧ Covers (rects.map Rectangle.xspan) x := by
  constructor
  · rintro ⟨rect, member, left, right, above, below⟩
    obtain ⟨rfl, rfl⟩ := band.strip rect member
    exact ⟨above, below, rect.xspan, mem_map_of_mem member, left, right⟩
  · rintro ⟨above, below, span, spanMember, inside⟩
    obtain ⟨rect, member, rfl⟩ := mem_map.mp spanMember
    obtain ⟨rfl, rfl⟩ := band.strip rect member
    exact ⟨rect, member, inside.1, inside.2, above, below⟩

theorem IsBand.banded (band : IsBand top bottom rects) (proper : top < bottom) : Banded rects := by
  have apart := pairwise_map.mp band.separated.apart
  refine ⟨apart.imp_of_mem fun {p q} memberP memberQ right => ?_, fun rect member => ?_⟩
  · obtain ⟨topP, bottomP⟩ := band.strip p memberP
    obtain ⟨topQ, bottomQ⟩ := band.strip q memberQ
    exact .inl ⟨topP.trans topQ.symm, bottomP.trans bottomQ.symm, right⟩
  · obtain ⟨rectTop, rectBottom⟩ := band.strip rect member
    refine ⟨band.separated.nonempty rect.xspan (mem_map_of_mem member), ?_⟩
    rw [rectTop, rectBottom]
    exact proper

/-- Banded rectangles that share a top form a band. -/
theorem Banded.isBand (banded : Banded rects)
    (strip : ∀ rect ∈ rects, rect.top = top ∧ rect.bottom = bottom) : IsBand top bottom rects := by
  refine ⟨strip, pairwise_map.mpr (banded.order.imp_of_mem fun {p q} memberP memberQ follows => ?_),
    fun span spanMember => ?_⟩
  · have properP := banded.proper p memberP
    obtain ⟨topP, bottomP⟩ := strip p memberP
    obtain ⟨topQ, _⟩ := strip q memberQ
    rcases follows with ⟨_, _, right⟩ | above
    · exact right
    · -- a lower band cannot have the same top
      have := properP.2
      omega
  · obtain ⟨rect, member, rfl⟩ := mem_map.mp spanMember
    exact (banded.proper rect member).1

theorem splitBand_append (rects : List Rectangle) :
    (splitBand rects).1 ++ (splitBand rects).2 = rects := by
  cases rects with
  | nil => rfl
  | cons rect rest =>
    simp only [splitBand, span_eq_takeWhile_dropWhile]
    exact takeWhile_append_dropWhile

section Split

variable (rect : Rectangle) (rest : List Rectangle)

theorem splitBand_fst_cons : ∃ others, (splitBand (rect :: rest)).1 = rect :: others := by
  simp only [splitBand, span_eq_takeWhile_dropWhile]
  exact ⟨_, takeWhile_cons_of_pos (by simp)⟩

theorem splitBand_top : ∀ other ∈ (splitBand (rect :: rest)).1, other.top = rect.top := by
  intro other member
  simp only [splitBand, span_eq_takeWhile_dropWhile] at member
  simpa using mem_takeWhile_imp member

end Split

/-- **The leading band of a banded list**, and what lies behind it. -/
theorem Banded.split {rect : Rectangle} {rest : List Rectangle} (banded : Banded (rect :: rest)) :
    IsBand rect.top rect.bottom (splitBand (rect :: rest)).1 ∧
      Banded (splitBand (rect :: rest)).2 ∧
      ∀ other ∈ (splitBand (rect :: rest)).2, rect.bottom ≤ other.top := by
  have whole : Banded ((splitBand (rect :: rest)).1 ++ (splitBand (rect :: rest)).2) := by
    rw [splitBand_append]
    exact banded
  obtain ⟨first, second, cross⟩ := (banded_append _ _).mp whole
  obtain ⟨proper, behind, _⟩ := (banded_cons _ _).mp banded
  obtain ⟨others, head⟩ := splitBand_fst_cons rect rest
  have headMember : rect ∈ (splitBand (rect :: rest)).1 := by rw [head]; exact mem_cons_self
  refine ⟨first.isBand fun other member => ?_, second, fun other member => ?_⟩
  · have top := splitBand_top rect rest other member
    refine ⟨top, ?_⟩
    have inList : other ∈ rect :: rest := by
      rw [← splitBand_append (rect :: rest)]
      exact mem_append_left _ member
    rcases mem_cons.mp inList with rfl | inRest
    · rfl
    · rcases behind other inRest with ⟨_, bottom, _⟩ | above
      · exact bottom.symm
      · have := proper.2
        omega
  · -- the first rectangle behind the band has another top, the others come after it
    cases tail : (splitBand (rect :: rest)).2 with
    | nil => rw [tail] at member; cases member
    | cons next later =>
      have different : next.top ≠ rect.top := by
        have stopped := head?_dropWhile_not (fun other : Rectangle => decide (other.top = rect.top))
          (rect :: rest)
        simp only [splitBand, span_eq_takeWhile_dropWhile] at tail
        simpa [tail] using stopped
      have nextBelow : rect.bottom ≤ next.top := by
        rcases cross rect headMember next (by rw [tail]; exact mem_cons_self) with same | below
        · exact absurd same.1.symm different
        · exact below
      rw [tail] at member second
      obtain ⟨nextProper, follows, _⟩ := (banded_cons _ _).mp second
      rcases mem_cons.mp member with rfl | member
      · exact nextBelow
      · have := nextProper.2
        rcases follows other member with ⟨top, _, _⟩ | below <;> omega

theorem splitBand_snd_length (rect : Rectangle) (rest : List Rectangle) :
    (splitBand (rect :: rest)).2.length < (rect :: rest).length := by
  obtain ⟨others, head⟩ := splitBand_fst_cons rect rest
  have total := congrArg length (splitBand_append (rect :: rest))
  rw [length_append, head, length_cons] at total
  omega

end FreeWindows.Rgn
