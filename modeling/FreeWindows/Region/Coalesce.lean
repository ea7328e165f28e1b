/-
**Coalescing of bands.**

`coalesce_region` merges the band just added into the one before it when the two have the same
x-spans and touch. It is called with the start of the last band, which `LastBand` describes.

* `coalesceRegion_cases`: the list is left alone, or the two bands are replaced by one;
* `coalesceAdded_same`: merging keeps the list banded, with the same points, and no lower than
  before; this is the call behind the loops, where several bands may have been added;
* `coalesceAdded_lastBand`: after one band was added, the start that is returned is again the start
  of the last band; this is the call inside the loop.
-/

import FreeWindows.Region.Overlap

namespace FreeWindows.Rgn

open Lib List

/-- The last band of the list starts at the index `start`; the list may also end there. -/
def LastBand (rects : List Rectangle) (start : Nat) : Prop :=
  ∃ before last top bottom, rects = before ++ last ∧ start = before.length ∧
    IsBand top bottom last ∧ ∀ rect ∈ before, rect.bottom ≤ top

/-- One band that is stretched down to a new bottom. -/
def stretch (band : List Rectangle) (bottom : Int) : List Rectangle :=
  band.map fun rect => { rect with bottom := bottom }

variable {bottom top : Int} {added old : List Rectangle} {c : Rectangle}

theorem stretch_isBand {band : List Rectangle} (isBand : IsBand top bottom band) (bottom' : Int) :
    IsBand top bottom' (stretch band bottom') := by
  refine ⟨fun rect stretched => ?_, ?_⟩
  · obtain ⟨old, member, rfl⟩ := mem_map.mp stretched
    exact ⟨(isBand.strip old member).1, rfl⟩
  · rw [stretch, map_map]
    exact isBand.separated

/-- Two bands of equal length over one bottom: zipping the bottoms in is stretching. -/
theorem zipWith_eq_stretch (prev cur : List Rectangle)
    (strip : ∀ rect ∈ cur, rect.top = top ∧ rect.bottom = bottom) (length : cur.length = prev.length) :
    List.zipWith (fun p c : Rectangle => { p with bottom := c.bottom }) prev cur =
      stretch prev bottom := by
  induction prev generalizing cur with
  | nil => simp [stretch]
  | cons p prev ih =>
    cases cur with
    | nil => simp at length
    | cons c cur =>
      have rest := ih cur (fun rect member => strip rect (mem_cons_of_mem _ member))
        (by simpa using length)
      rw [zipWith_cons_cons, rest, (strip c mem_cons_self).2]
      rfl

theorem xspans_eq_iff (first second : List Rectangle) :
    first.map (fun r => (r.left, r.right)) = second.map (fun r => (r.left, r.right)) ↔
      xspans first = xspans second := by
  induction first generalizing second with
  | nil => cases second <;> simp [xspans]
  | cons a first ih =>
    cases second with
    | nil => simp [xspans]
    | cons b second =>
      rw [map_cons, map_cons, cons.injEq, ih]
      simp [xspans, Rectangle.xspan]

variable {prev : List Rectangle} {start prevBand : Nat} {reg : Region}

/-- **What `coalesce_region` does** to `before ++ prev ++ added`, called with the starts of `prev`
and `added`: nothing, or it replaces `prev` and the leading band of `added` by `prev` stretched. -/
theorem coalesceRegion_cases (before : List Rectangle) (isBand : IsBand top bottom prev)
    (banded : Banded (c :: added)) :
    let after := (splitBand (c :: added)).2
    let result := coalesceRegion (before ++ prev ++ c :: added) before.length
      (before ++ prev).length
    (result.1 = before ++ prev ++ c :: added ∧ (after = [] → result.2 = (before ++ prev).length)) ∨
      (prev ≠ [] ∧ bottom = c.top ∧ xspans prev = xspans (splitBand (c :: added)).1 ∧
        result.1 = before ++ stretch prev c.bottom ++ after ∧
        (after = [] → result.2 = before.length)) := by
  intro after result
  have takePrev : ((before ++ prev ++ c :: added).drop before.length).take
      ((before ++ prev).length - before.length) = prev := by
    rw [append_assoc, drop_left, length_append, Nat.add_sub_cancel_left, take_left]
  have dropAdded : (before ++ prev ++ c :: added).drop (before ++ prev).length = c :: added :=
    drop_left
  have takeBefore : (before ++ prev ++ c :: added).take before.length = before := by
    rw [append_assoc, take_left]
  obtain ⟨others, head⟩ := splitBand_fst_cons c added
  have unchanged : (if after.isEmpty then (before ++ prev).length
      else lastBandStart (before ++ prev ++ c :: added)) = (before ++ prev).length ∨ after ≠ [] := by
    by_cases empty : after = []
    · left; simp [empty]
    · exact .inr empty
  have resultEq : result = coalesceRegion (before ++ prev ++ c :: added) before.length
      (before ++ prev).length := rfl
  simp only [coalesceRegion, takePrev, dropAdded, takeBefore] at resultEq
  cases prev with
  | nil =>
    left
    rw [resultEq]
    refine ⟨rfl, fun empty => ?_⟩
    exact unchanged.resolve_right (not_not.mpr empty)
  | cons p prev =>
    rw [head] at resultEq ⊢
    simp only at resultEq
    split at resultEq
    · rename_i same
      obtain ⟨length, touch, spans⟩ := same
      right
      rw [resultEq]
      refine ⟨cons_ne_nil _ _, ?_, (xspans_eq_iff _ _).mp spans, ?_, fun empty => ?_⟩
      · rw [← touch, (isBand.strip p mem_cons_self).2]
      · rw [← head] at length ⊢
        rw [zipWith_eq_stretch (p :: prev) _ banded.split.1.strip length]
      · show (if after.isEmpty then _ else _) = _
        simp [empty]
    · left
      rw [resultEq]
      exact ⟨rfl, fun empty => unchanged.resolve_right (not_not.mpr empty)⟩

/-- Two touching bands with the same x-spans cover the points of the upper one stretched. -/
theorem contains_stretch {cur : List Rectangle} {middle : Int} (upper : IsBand top middle prev)
    (lower : IsBand middle bottom cur) (same : xspans prev = xspans cur) (properUpper : top < middle)
    (properLower : middle < bottom) (x y : Int) :
    Contains (stretch prev bottom) x y ↔ Contains prev x y ∨ Contains cur x y := by
  have spans : xspans (stretch prev bottom) = xspans prev := by
    rw [xspans, stretch, map_map]
    rfl
  rw [contains_isBand (stretch_isBand upper bottom), contains_isBand upper, contains_isBand lower]
  change _ ∧ _ ∧ Covers (xspans _) x ↔ (_ ∧ _ ∧ Covers (xspans _) x) ∨ _ ∧ _ ∧ Covers (xspans _) x
  rw [spans, ← same, ← and_assoc, ← and_assoc, ← and_assoc, ← or_and_right]
  refine and_congr_left fun _ => ?_
  omega

/-- **Coalescing keeps the list banded and keeps its points.** -/
theorem coalesceRegion_same (last : LastBand old start) (banded : Banded (old ++ c :: added)) :
    let result := (coalesceRegion (old ++ c :: added) start old.length).1
    Banded result ∧ ∀ x y, Contains result x y ↔ Contains (old ++ c :: added) x y := by
  intro result
  obtain ⟨before, prev, top, bottom, rfl, rfl, isBand, above⟩ := last
  obtain ⟨oldBanded, addedBanded, cross⟩ := (banded_append _ _).mp banded
  obtain ⟨curBand, afterBanded, curAbove⟩ := addedBanded.split
  rcases coalesceRegion_cases before isBand addedBanded with
    ⟨unchanged, _⟩ | ⟨nonempty, touch, same, merged, _⟩
  · rw [show result = _ from unchanged]
    exact ⟨banded, fun x y => Iff.rfl⟩
  · subst touch
    obtain ⟨beforeBanded, prevBanded, _⟩ := (banded_append _ _).mp oldBanded
    obtain ⟨p, member⟩ := exists_mem_of_ne_nil prev nonempty
    have properUpper : top < c.top := by
      obtain ⟨pTop, pBottom⟩ := isBand.strip p member
      have := (prevBanded.proper p member).2
      omega
    have properLower : c.top < c.bottom := (addedBanded.proper c mem_cons_self).2
    have stretched := stretch_isBand isBand c.bottom
    rw [show result = _ from merged]
    refine ⟨?_, fun x y => ?_⟩
    · rw [append_assoc, banded_append, banded_append]
      refine ⟨beforeBanded, ⟨stretched.banded (by omega), afterBanded, ?_⟩, ?_⟩
      · intro q inStretch r inAfter
        have := (stretched.strip q inStretch).2
        have := curAbove r inAfter
        right; omega
      · intro q inBefore r inRest
        have qAbove := above q inBefore
        right
        rcases mem_append.mp inRest with inStretch | inAfter
        · have := (stretched.strip r inStretch).1
          omega
        · have := curAbove r inAfter
          omega
    · have whole := splitBand_append (c :: added)
      rw [← whole, contains_append, contains_append, contains_append, contains_append, contains_append,
        whole, contains_stretch isBand curBand same properUpper properLower, or_assoc, or_assoc,
        or_assoc]

/-- When the rectangles added behind a banded list all fill one strip, the start that
`coalesce_region` returns is the start of the last band. -/
theorem coalesceRegion_lastBand (last : LastBand old start) (isBand : IsBand top bottom (c :: added))
    (proper : top < bottom) (above : ∀ rect ∈ old, rect.bottom ≤ top) :
    let result := coalesceRegion (old ++ c :: added) start old.length
    LastBand result.1 result.2 := by
  intro result
  obtain ⟨before, prev, prevTop, prevBottom, rfl, rfl, prevBand, prevAbove⟩ := last
  -- the rectangles added are one band, so nothing is left behind it
  have addedBanded := isBand.banded proper
  obtain ⟨curBand, _, curAbove⟩ := addedBanded.split
  obtain ⟨cTop, cBottom⟩ := isBand.strip c mem_cons_self
  have noAfter : (splitBand (c :: added)).2 = [] := by
    rw [eq_nil_iff_forall_not_mem]
    intro rect member
    have inAdded : rect ∈ c :: added := by
      rw [← splitBand_append (c :: added)]
      exact mem_append_right _ member
    have := (isBand.strip rect inAdded).1
    have := curAbove rect member
    omega
  rcases coalesceRegion_cases before prevBand addedBanded with
    ⟨unchanged, begins⟩ | ⟨_, _, _, merged, begins⟩
  · exact ⟨before ++ prev, c :: added, top, bottom, unchanged, begins noAfter, isBand, above⟩
  · refine ⟨before, stretch prev c.bottom, prevTop, c.bottom, ?_, begins noAfter,
      stretch_isBand prevBand c.bottom, prevAbove⟩
    rw [show result.1 = _ from merged, noAfter, append_nil]

/-! ### The call of the sweep -/

variable (rects : reg.rects = old ++ added) (last : LastBand old prevBand)
include rects last

/-- The call behind the loops: whatever was added is banded behind the old rectangles. -/
theorem coalesceAdded_same (banded : Banded (old ++ added)) :
    Banded (coalesceAdded reg prevBand old.length).1.rects ∧
      ∀ x y, Contains (coalesceAdded reg prevBand old.length).1.rects x y ↔
        Contains (old ++ added) x y := by
  unfold coalesceAdded
  cases added with
  | nil =>
    rw [rects, append_nil, if_neg (by simp)]
    rw [append_nil] at banded rects
    exact ⟨rects ▸ banded, fun x y => by rw [rects]⟩
  | cons c added =>
    rw [rects, if_pos (by simp)]
    exact coalesceRegion_same last banded

/-- The call inside the loop: one band of the strip was added. -/
theorem coalesceAdded_lastBand (isBand : IsBand top bottom added) (proper : top < bottom)
    (above : ∀ rect ∈ old, rect.bottom ≤ top) :
    LastBand (coalesceAdded reg prevBand old.length).1.rects
      (coalesceAdded reg prevBand old.length).2 := by
  unfold coalesceAdded
  cases added with
  | nil =>
    rw [rects, append_nil, if_neg (by simp)]
    show LastBand reg.rects prevBand
    rw [rects, append_nil]
    exact last
  | cons c added =>
    rw [rects, if_pos (by simp)]
    exact coalesceRegion_lastBand last isBand proper above

end FreeWindows.Rgn
