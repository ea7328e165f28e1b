/-
**Extents.**

The extents of a region are the bounding box of its rectangles. `Bounds points box` says the same
of a set of points, in its own terms: all points lie in the box and each side of the box is
touched. Since the points determine the box (`Bounds.unique`), extents can be computed from
whatever description of the points is at hand:

* `setRegionExtents_extents`: `set_region_extents` takes the y-extent from the first and the last
  rectangle only, which is right for a banded list;
* `Bounds.union`: the union of two boxes, as `union_region` assigns it;
* `regionOp_extents`: `region_op` itself leaves the extents alone, which `union_region` relies on
  when it reads the extents of a source that is also the destination.
-/

import FreeWindows.Region.Sweep

namespace FreeWindows.Rgn

open Lib List Option

/-- **The bounding box** of a list of rectangles, all-zero if there are none. -/
def boundingBox : List Rectangle → Rectangle
  | [] => emptyRect
  | rect :: rest => rest.foldl (fun box r =>
      ⟨min box.left r.left, min box.top r.top, max box.right r.right, max box.bottom r.bottom⟩) rect

/-- The box holds all the points and every side of it is touched by one of them. -/
structure Bounds (points : Int → Int → Prop) (box : Rectangle) : Prop where
  within : ∀ x y, points x y → box.Has x y
  left : ∃ y, points box.left y
  top : ∃ x, points x box.top
  right : ∃ y, points (box.right - 1) y
  bottom : ∃ x, points x (box.bottom - 1)

variable {box rect : Rectangle} {points : Int → Int → Prop} {rest : List Rectangle} {other : Rectangle}

/-- A box that bounds the points is inside every box that holds them all. -/
theorem Bounds.le (bounds : Bounds points box) (within : ∀ x y, points x y → other.Has x y) :
    other.left ≤ box.left ∧ other.top ≤ box.top ∧ box.right ≤ other.right ∧
      box.bottom ≤ other.bottom := by
  obtain ⟨_, ⟨y1, left⟩, ⟨x1, top⟩, ⟨y2, right⟩, ⟨x2, bottom⟩⟩ := bounds
  have := within _ _ left
  have := within _ _ top
  have := within _ _ right
  have := within _ _ bottom
  unfold Rectangle.Has at *
  omega

/-- **The points determine the box.** -/
theorem Bounds.unique (first : Bounds points box) (second : Bounds points other) : box = other := by
  obtain ⟨left, top, right, bottom⟩ := first.le second.within
  obtain ⟨left', top', right', bottom'⟩ := second.le first.within
  obtain ⟨l, t, r, b⟩ := box
  obtain ⟨l', t', r', b'⟩ := other
  simp only [Rectangle.mk.injEq] at *
  omega

theorem Bounds.congr {other : Int → Int → Prop} (bounds : Bounds points box)
    (same : ∀ x y, points x y ↔ other x y) : Bounds other box := by
  have : points = other := by
    funext x y
    exact propext (same x y)
  rwa [← this]

theorem Bounds.union {points1 points2 : Int → Int → Prop} {box1 box2 : Rectangle}
    (first : Bounds points1 box1) (second : Bounds points2 box2) :
    Bounds (fun x y => points1 x y ∨ points2 x y)
      ⟨min box1.left box2.left, min box1.top box2.top, max box1.right box2.right,
        max box1.bottom box2.bottom⟩ := by
  refine ⟨?_, ?_, ?_, ?_, ?_⟩
  · rintro x y (inside | inside)
    · have := first.within x y inside
      unfold Rectangle.Has at *
      simp only
      omega
    · have := second.within x y inside
      unfold Rectangle.Has at *
      simp only
      omega
  · rcases min_choice box1.left box2.left with side | side <;> simp only [side]
    · exact first.left.imp fun _ => .inl
    · exact second.left.imp fun _ => .inr
  · rcases min_choice box1.top box2.top with side | side <;> simp only [side]
    · exact first.top.imp fun _ => .inl
    · exact second.top.imp fun _ => .inr
  · rcases max_choice box1.right box2.right with side | side <;> simp only [side]
    · exact first.right.imp fun _ => .inl
    · exact second.right.imp fun _ => .inr
  · rcases max_choice box1.bottom box2.bottom with side | side <;> simp only [side]
    · exact first.bottom.imp fun _ => .inl
    · exact second.bottom.imp fun _ => .inr

/-- A box around proper rectangles, each side of which is the side of one of them. -/
theorem bounds_of_rects {rects : List Rectangle} (proper : ∀ r ∈ rects, r.Proper)
    (within : ∀ r ∈ rects, box.left ≤ r.left ∧ box.top ≤ r.top ∧ r.right ≤ box.right ∧
      r.bottom ≤ box.bottom) (left : ∃ r ∈ rects, r.left = box.left)
    (top : ∃ r ∈ rects, r.top = box.top) (right : ∃ r ∈ rects, r.right = box.right)
    (bottom : ∃ r ∈ rects, r.bottom = box.bottom) : Bounds (Contains rects) box := by
  have corner : ∀ r ∈ rects, ∀ x y, x = r.left ∨ x = r.right - 1 → y = r.top ∨ y = r.bottom - 1 →
      Contains rects x y := fun r member x y _ _ => by
    obtain ⟨horizontal, vertical⟩ := proper r member
    exact ⟨r, member, by omega, by omega, by omega, by omega⟩
  refine ⟨?_, ?_, ?_, ?_, ?_⟩
  · rintro x y ⟨r, member, inside⟩
    have := within r member
    unfold Rectangle.Has at *
    omega
  · obtain ⟨r, member, side⟩ := left
    exact ⟨r.top, corner r member _ _ (by omega) (by omega)⟩
  · obtain ⟨r, member, side⟩ := top
    exact ⟨r.left, corner r member _ _ (by omega) (by omega)⟩
  · obtain ⟨r, member, side⟩ := right
    exact ⟨r.top, corner r member _ _ (by omega) (by omega)⟩
  · obtain ⟨r, member, side⟩ := bottom
    exact ⟨r.left, corner r member _ _ (by omega) (by omega)⟩

theorem bounds_singleton (proper : rect.Proper) : Bounds (Contains [rect]) rect := by
  have self := mem_singleton_self rect
  refine bounds_of_rects ?_ ?_ ⟨rect, self, rfl⟩ ⟨rect, self, rfl⟩ ⟨rect, self, rfl⟩ ⟨rect, self, rfl⟩
  · intro r member
    rwa [mem_singleton.mp member]
  · intro r member
    rw [mem_singleton.mp member]
    exact ⟨le_rfl, le_rfl, le_rfl, le_rfl⟩

/-- **The bounding box of proper rectangles bounds their points.** -/
theorem boundingBox_bounds (proper : ∀ r ∈ rect :: rest, r.Proper) :
    Bounds (Contains (rect :: rest)) (boundingBox (rect :: rest)) := by
  -- the fold, from any box that bounds the points taken so far
  suffices fold : ∀ (seen later : List Rectangle) (box : Rectangle), Bounds (Contains seen) box →
      (∀ r ∈ later, r.Proper) → Bounds (Contains (seen ++ later)) (later.foldl (fun box r =>
        ⟨min box.left r.left, min box.top r.top, max box.right r.right, max box.bottom r.bottom⟩)
        box) from
    fold [rect] rest rect (bounds_singleton (proper rect mem_cons_self))
      fun r member => proper r (mem_cons_of_mem _ member)
  intro seen later
  induction later generalizing seen with
  | nil =>
    intro box bounds _
    rwa [append_nil]
  | cons r later ih =>
    intro box bounds proper
    have next := (bounds.union (bounds_singleton (proper r mem_cons_self))).congr fun x y =>
      (contains_append seen [r] x y).symm
    have whole := ih (seen ++ [r]) _ next fun other member => proper other (mem_cons_of_mem _ member)
    rwa [append_assoc] at whole

/-! ### `set_region_extents` -/

theorem foldl_widenExtents (rects : List Rectangle) (start : Rectangle) :
    let box := rects.foldl widenExtents start
    (box.top = start.top ∧ box.bottom = start.bottom) ∧
      (box.left ≤ start.left ∧ ∀ r ∈ rects, box.left ≤ r.left) ∧
      (start.right ≤ box.right ∧ ∀ r ∈ rects, r.right ≤ box.right) ∧
      (box.left = start.left ∨ ∃ r ∈ rects, r.left = box.left) ∧
      (box.right = start.right ∨ ∃ r ∈ rects, r.right = box.right) := by
  induction rects generalizing start with
  | nil => simp
  | cons r rects ih =>
    have step := ih (widenExtents start r)
    simp only [foldl_cons, forall_mem_cons, exists_mem_cons_iff] at *
    generalize rects.foldl widenExtents (widenExtents start r) = box at *
    unfold widenExtents at step
    grind

/-- In a banded list the first rectangle is the highest and the last one the lowest. -/
theorem Banded.first_last {first : Rectangle} (banded : Banded (first :: rest)) :
    ∀ r ∈ first :: rest, first.top ≤ r.top ∧ r.bottom ≤ (rest.getLastD first).bottom := by
  obtain ⟨proper, follows, tail⟩ := (banded_cons _ _).mp banded
  induction rest generalizing first with
  | nil =>
    intro r member
    rw [mem_singleton.mp member]
    exact ⟨le_rfl, le_rfl⟩
  | cons next rest ih =>
    obtain ⟨nextProper, nextFollows, nextTail⟩ := (banded_cons _ _).mp tail
    have later := ih tail nextProper nextFollows nextTail
    have step := follows next mem_cons_self
    have := later next mem_cons_self
    have := proper.2
    have := nextProper.2
    intro r member
    rw [getLastD_cons]
    unfold Follows at step
    rcases mem_cons.mp member with rfl | member
    · omega
    · have := later r member
      omega

/-- **`set_region_extents` computes the bounding box of a banded list.** -/
theorem setRegionExtents_extents {region : Region} (banded : Banded region.rects) :
    (setRegionExtents region).extents = boundingBox (setRegionExtents region).rects := by
  obtain ⟨size, rects, extents⟩ := region
  cases rects with
  | nil => rfl
  | cons first rest =>
    have lastMember : rest.getLastD first ∈ first :: rest := by
      rw [← getLast_eq_getLastD (cons_ne_nil first rest)]
      exact getLast_mem _
    obtain ⟨⟨top, bottom⟩, ⟨_, left⟩, ⟨_, right⟩, leftSide, rightSide⟩ := foldl_widenExtents (first :: rest)
      ⟨first.left, first.top, (rest.getLastD first).right, (rest.getLastD first).bottom⟩
    simp only [setRegionExtents]
    generalize (first :: rest).foldl widenExtents _ = box at *
    have bounds : Bounds (Contains (first :: rest)) box := by
      refine bounds_of_rects banded.proper (fun r member => ?_) ?_ ⟨first, mem_cons_self, top.symm⟩
        ?_ ⟨_, lastMember, bottom.symm⟩
      · have := banded.first_last r member
        have := left r member
        have := right r member
        simp only at *
        omega
      · rcases leftSide with side | side
        · exact ⟨first, mem_cons_self, side.symm⟩
        · exact side
      · rcases rightSide with side | side
        · exact ⟨_, lastMember, side.symm⟩
        · exact side
    exact bounds.unique (boundingBox_bounds banded.proper)

@[simp] theorem setRegionExtents_rects (region : Region) :
    (setRegionExtents region).rects = region.rects := by
  unfold setRegionExtents
  split
  · rename_i empty
    exact empty.symm ▸ rfl
  · rfl

/-! ### What `region_op` leaves alone -/

section Frame

variable {alloc : Alloc}

theorem addRect_extents (reg : Region) (rect : Rectangle) :
    Gives (addRect alloc reg rect) fun reg' => reg'.extents = reg.extents := by
  unfold addRect
  split
  · split
    · exact rfl
    · exact trivial
  · exact rfl

variable {bottom top : Int}

theorem mergeRect_extents (reg : Region) (r : Rectangle) :
    Gives (mergeRect alloc reg r top bottom) fun reg' => reg'.extents = reg.extents := by
  unfold mergeRect
  split
  · split
    · split <;> exact rfl
    · exact addRect_extents reg _
  · exact addRect_extents reg _

theorem copyBand_extents (reg : Region) (band : List Rectangle) :
    Gives (copyBand alloc reg band top bottom) fun reg' => reg'.extents = reg.extents := by
  induction band generalizing reg with
  | nil => exact rfl
  | cons r rest ih =>
    exact gives_bind (addRect_extents reg _) fun mid step => (ih mid).mono fun _ later => later.trans step

theorem unionOverlapping_extents (reg : Region) (r1 r2 : List Rectangle) :
    Gives (unionOverlapping alloc reg r1 r2 top bottom) fun reg' => reg'.extents = reg.extents := by
  fun_induction unionOverlapping alloc reg r1 r2 top bottom with
  | case1 reg a r1 b r2 less ih | case2 reg a r1 b r2 notLess ih | case3 reg a r1 ih
  | case4 reg b r2 ih =>
    exact gives_bind (mergeRect_extents reg _) fun mid step => (ih mid).mono fun _ later => later.trans step
  | case5 reg => exact rfl

theorem coalesceAdded_extents (reg : Region) (prevBand curBand : Nat) :
    (coalesceAdded reg prevBand curBand).1.extents = reg.extents := by
  unfold coalesceAdded
  split <;> rfl

end Frame

/-- The callbacks do not touch the extents. -/
structure KeepsExtents (funcs : Callbacks) : Prop where
  overlap : ∀ reg r1 r2 top bottom reg', funcs.overlap reg r1 r2 top bottom = some reg' →
    reg'.extents = reg.extents
  nonOverlap1 : ∀ reg band top bottom reg',
    callNonOverlap funcs.nonOverlap1 reg band top bottom = some reg' → reg'.extents = reg.extents
  nonOverlap2 : ∀ reg band top bottom reg',
    callNonOverlap funcs.nonOverlap2 reg band top bottom = some reg' → reg'.extents = reg.extents

section Frame

variable {funcs : Callbacks} {reg : Region} {ybot ytop : Int} {band1 band2 : List Rectangle}

section Extents

variable (keeps : KeepsExtents funcs)
include keeps

theorem sweepNonOverlap_extents (a b : Rectangle) :
    Gives (sweepNonOverlap funcs reg a b band1 band2 ybot) fun out => out.1.extents = reg.extents := by
  unfold sweepNonOverlap
  dsimp only
  split
  · split
    · exact gives_map (gives_of (keeps.nonOverlap1 _ _ _ _))
    · exact rfl
  · split
    · split
      · exact gives_map (gives_of (keeps.nonOverlap2 _ _ _ _))
      · exact rfl
    · exact rfl

theorem sweepOverlap_extents :
    Gives (sweepOverlap funcs reg band1 band2 ytop ybot) fun reg' => reg'.extents = reg.extents := by
  unfold sweepOverlap
  split
  · exact gives_of (keeps.overlap _ _ _ _ _)
  · exact rfl

theorem sweepStep_extents (s : Sweep) :
    Gives (sweepStep funcs s) fun next => next.newReg.extents = s.newReg.extents := by
  unfold sweepStep
  split
  · refine gives_bind (sweepNonOverlap_extents keeps _ _) fun mid upper => ?_
    refine gives_bind (sweepOverlap_extents keeps) fun reg' lower => ?_
    exact (coalesceAdded_extents ..).trans (lower.trans ((coalesceAdded_extents ..).trans upper))
  · exact rfl

theorem sweepLoop_extents (fuel : Nat) (s : Sweep) :
    Gives (sweepLoop funcs fuel s) fun final => final.newReg.extents = s.newReg.extents := by
  induction fuel generalizing s with
  | zero => exact rfl
  | succ fuel ih =>
    refine gives_bind (sweepStep_extents keeps s) fun next first => ?_
    split
    · exact first
    · exact (ih next).mono fun _ later => later.trans first

end Extents

theorem emitRest_extents {call : NonOverlapFunc}
    (keeps : ∀ reg band top bottom reg', call reg band top bottom = some reg' →
      reg'.extents = reg.extents) (fuel : Nat) (reg : Region) (rest : List Rectangle) :
    Gives (emitRest call fuel reg rest ybot) fun reg' => reg'.extents = reg.extents := by
  induction fuel generalizing reg rest with
  | zero => exact rfl
  | succ fuel ih =>
    cases rest with
    | nil => exact rfl
    | cons r rest =>
      exact gives_bind (gives_of (keeps _ _ _ _)) fun mid step =>
        (ih mid _).mono fun _ later => later.trans step

theorem sweepRest_extents (keeps : KeepsExtents funcs) (s : Sweep) :
    Gives (sweepRest funcs s) fun reg => reg.extents = s.newReg.extents := by
  refine gives_bind (p := fun mid => mid.extents = s.newReg.extents) ?_ fun mid tail =>
    (coalesceAdded_extents ..).trans tail
  rw [sweepTail_eq]
  split
  · exact emitRest_extents keeps.nonOverlap1 _ _ _
  · exact emitRest_extents keeps.nonOverlap2 _ _ _

/-- **`region_op` leaves the extents alone.** -/
theorem regionOp_extents (keeps : KeepsExtents funcs) (alloc : Alloc) (newReg reg1 reg2 : Region) :
    Gives (regionOp alloc newReg reg1 reg2 funcs) fun result => result.extents = newReg.extents := by
  unfold regionOp
  dsimp only
  split
  · exact gives_bind (sweepLoop_extents keeps _ _) fun final loop =>
      gives_bind (sweepRest_extents keeps final) fun reg rest =>
        (shrinkRegion_kept alloc reg).2.trans (rest.trans loop)
  · exact trivial

end Frame

end FreeWindows.Rgn
