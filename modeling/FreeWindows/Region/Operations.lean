/-
**The four operations on region objects.**

A region is `Valid` when its rectangles pass `validate_rectangles` and its extents are their
bounding box. For each operation, a call that succeeds leaves in `dst` a valid region of the right
points, whatever `dst` held before and also when it is one of the sources, and leaves every other
object alone (`Stored`).

* `intersectRegion_stored`, `subtractRegion_stored`, `unionRegion_stored`, `xorRegion_stored`;
* `setOp_correct`: the four of them together.
-/

import FreeWindows.Region.Extents

namespace FreeWindows.Rgn

open Lib Function Store

/-- **A valid region**: accepted by `validate_rectangles`, with its bounding box as extents. -/
structure Region.Valid (region : Region) : Prop where
  rectangles : validateRectangles region.rects = true
  extents : region.extents = boundingBox region.rects

instance (region : Region) : Decidable region.Valid :=
  decidable_of_iff (validateRectangles region.rects = true ∧
    region.extents = boundingBox region.rects)
    ⟨fun h => ⟨h.1, h.2⟩, fun h => ⟨h.rectangles, h.extents⟩⟩

section Valid

variable {region : Region}

theorem Region.Valid.banded (valid : region.Valid) : Banded region.rects :=
  (validateRectangles_iff _).mp valid.rectangles

theorem Region.Valid.bounds (valid : region.Valid) (some : region.rects ≠ []) :
    Bounds (Contains region.rects) region.extents := by
  rw [valid.extents]
  have proper := valid.banded.proper
  cases eq : region.rects with
  | nil => exact absurd eq some
  | cons first rest =>
    rw [eq] at proper
    exact boundingBox_bounds proper

theorem Region.Valid.extents_top (valid : region.Valid) :
    ∀ rect ∈ region.rects, region.extents.top ≤ rect.top := by
  intro rect member
  obtain ⟨horizontal, vertical⟩ := valid.banded.proper rect member
  have bounds := valid.bounds (List.ne_nil_of_mem member)
  have corner := bounds.within rect.left rect.top ⟨rect, member, le_rfl, horizontal, le_rfl, vertical⟩
  exact corner.2.2.1

/-- A banded list with a box that bounds its points makes a valid region. -/
theorem valid_of_bounds (banded : Banded region.rects) (some : region.rects ≠ [])
    (bounds : Bounds (Contains region.rects) region.extents) : region.Valid := by
  refine ⟨(validateRectangles_iff _).mpr banded, ?_⟩
  have proper := banded.proper
  cases eq : region.rects with
  | nil => exact absurd eq some
  | cons first rest =>
    rw [eq] at proper bounds
    exact bounds.unique (boundingBox_bounds proper)

theorem valid_setRegionExtents (banded : Banded region.rects) : (setRegionExtents region).Valid := by
  refine ⟨?_, setRegionExtents_extents banded⟩
  rw [setRegionExtents_rects]
  exact (validateRectangles_iff _).mpr banded

end Valid

/-! ### The callbacks of the operations -/

theorem implements_intersect (alloc : Alloc) :
    Implements ⟨intersectOverlapping alloc, none, none⟩ And where
  overlap reg r1 r2 top bottom reg' _ first second done :=
    intersectOverlapping_emitted alloc reg r1 r2 top bottom first second reg' done
  nonOverlap1 reg band top bottom reg' _ done := by
    cases done
    exact (emitted_nil _ top bottom).congr fun x => by simp
  nonOverlap2 reg band top bottom reg' _ done := by
    cases done
    exact (emitted_nil _ top bottom).congr fun x => by simp
  neither := by simp

theorem implements_subtract (alloc : Alloc) :
    Implements ⟨subtractOverlapping alloc, some (subtractNonOverlapping alloc), none⟩
      fun p q => p ∧ ¬ q where
  overlap reg r1 r2 top bottom reg' _ first second done :=
    (subtractLoop_emitted alloc reg _ r1 r2 top bottom first second (starts_nextLeft 0 first) reg' done).congr
      fun x => by rw [remaining_nextLeft]
  nonOverlap1 reg band top bottom reg' separated done :=
    (copyBand_emitted alloc reg band top bottom separated reg' done).congr fun x => by simp
  nonOverlap2 reg band top bottom reg' _ done := by
    cases done
    exact (emitted_nil _ top bottom).congr fun x => by simp
  neither := by simp

theorem implements_union (alloc : Alloc) :
    Implements ⟨unionOverlapping alloc, some (unionNonOverlapping alloc),
      some (unionNonOverlapping alloc)⟩ Or where
  overlap reg r1 r2 top bottom reg' above first second done := by
    obtain ⟨band, merging, covers⟩ := unionOverlapping_merging alloc reg.rects reg r1 r2 top bottom
      above first second reg' done [] ⟨(List.append_nil _).symm, isBand_nil top bottom⟩ nofun nofun
    exact ⟨band, merging.rects, merging.isBand, fun x => by rw [covers x]; simp⟩
  nonOverlap1 reg band top bottom reg' separated done :=
    (copyBand_emitted alloc reg band top bottom separated reg' done).congr fun x => by simp
  nonOverlap2 reg band top bottom reg' separated done :=
    (copyBand_emitted alloc reg band top bottom separated reg' done).congr fun x => by simp
  neither := by simp

theorem keepsExtents_union (alloc : Alloc) :
    KeepsExtents ⟨unionOverlapping alloc, some (unionNonOverlapping alloc),
      some (unionNonOverlapping alloc)⟩ where
  overlap reg _ _ _ _ _ := (unionOverlapping_extents reg _ _).post
  nonOverlap1 reg _ _ _ _ := (copyBand_extents reg _).post
  nonOverlap2 reg _ _ _ _ := (copyBand_extents reg _).post

/-! ### Results in the store -/

/-- After the call `dst` is a valid region of the given points, and nothing else has changed. -/
structure Stored (before after : Store) (dst : RegionId) (points : Int → Int → Prop) : Prop where
  valid : (after.get dst).Valid
  contains : ∀ x y, Contains (after.get dst).rects x y ↔ points x y
  others : ∀ id, id ≠ dst → after.get id = before.get id

theorem Store.get_set (store : Store) (dst id : RegionId) (region : Region) :
    (store.set dst region).get id = if id = dst then region else store.get id := by
  by_cases same : id = dst
  · rw [if_pos same, same]
    exact update_self ..
  · rw [if_neg same]
    exact update_of_ne same ..

@[simp] theorem Store.get_set_self (store : Store) (dst : RegionId) (region : Region) :
    (store.set dst region).get dst = region := by
  rw [get_set, if_pos rfl]

section Operations

variable {alloc : Alloc} {store after : Store} {dst src src1 src2 : RegionId}

theorem stored_set {region : Region} (valid : region.Valid) {points : Int → Int → Prop}
    (contains : ∀ x y, Contains region.rects x y ↔ points x y) :
    Stored store (store.set dst region) dst points := by
  refine ⟨?_, fun x y => ?_, fun id other => by rw [get_set, if_neg other]⟩
  · rw [get_set_self]
    exact valid
  · rw [get_set_self]
    exact contains x y

theorem copyRegion_stored (valid : (store.get src).Valid)
    (done : copyRegion alloc store dst src = some after) :
    Stored store after dst fun x y => Contains (store.get src).rects x y := by
  unfold copyRegion at done
  split at done
  · rename_i same
    cases done
    rw [same]
    exact ⟨valid, fun _ _ => Iff.rfl, fun _ _ => rfl⟩
  · have copied : ∀ size, Region.Valid ⟨size, (store.get src).rects, (store.get src).extents⟩ :=
      fun _ => ⟨valid.rectangles, valid.extents⟩
    simp only at done
    split at done
    · split at done
      · cases done
        exact stored_set (copied _) fun _ _ => Iff.rfl
      · cases done
    · cases done
      exact stored_set (copied _) fun _ _ => Iff.rfl

theorem Stored.congr {points other : Int → Int → Prop} (stored : Stored store after dst points)
    (same : ∀ x y, points x y ↔ other x y) : Stored store after dst other :=
  ⟨stored.valid, fun x y => (stored.contains x y).trans (same x y), stored.others⟩

/-- Two regions whose extents do not overlap, or one of which is empty, have no common point. -/
theorem disjoint_of_extentCheck {reg1 reg2 : Region} (valid1 : reg1.Valid) (valid2 : reg2.Valid)
    (trivial : reg1.rects = [] ∨ reg2.rects = [] ∨ ¬ extentCheck reg1.extents reg2.extents)
    (x y : Int) : ¬ (Contains reg1.rects x y ∧ Contains reg2.rects x y) := by
  rintro ⟨in1, in2⟩
  have some1 : reg1.rects ≠ [] := fun empty => contains_nil x y (empty ▸ in1)
  have some2 : reg2.rects ≠ [] := fun empty => contains_nil x y (empty ▸ in2)
  have within1 := (valid1.bounds some1).within x y in1
  have within2 := (valid2.bounds some2).within x y in2
  rcases trivial with empty | empty | apart
  · exact some1 empty
  · exact some2 empty
  · simp only [extentCheck, Bool.and_eq_true, decide_eq_true_eq] at apart
    unfold Rectangle.Has at *
    omega

theorem intersectRegion_stored (valid1 : (store.get src1).Valid) (valid2 : (store.get src2).Valid)
    (done : intersectRegion alloc store dst src1 src2 = some after) :
    Stored store after dst fun x y =>
      Contains (store.get src1).rects x y ∧ Contains (store.get src2).rects x y := by
  unfold intersectRegion at done
  simp only at done
  split at done
  · rename_i trivial
    cases done
    refine stored_set ⟨rfl, rfl⟩ fun x y => ?_
    exact iff_of_false (contains_nil x y) (disjoint_of_extentCheck valid1 valid2 trivial x y)
  · obtain ⟨result, sweep, same⟩ := Option.bind_eq_some_iff.mp done
    cases same
    obtain ⟨banded, points⟩ := (regionOp_spec (implements_intersect alloc) valid1.banded
      valid2.banded valid1.extents_top valid2.extents_top).post sweep
    refine stored_set (valid_setRegionExtents banded) fun x y => ?_
    rw [setRegionExtents_rects]
    exact points x y

theorem subtractRegion_stored (valid1 : (store.get src1).Valid) (valid2 : (store.get src2).Valid)
    (done : subtractRegion alloc store dst src1 src2 = some after) :
    Stored store after dst fun x y =>
      Contains (store.get src1).rects x y ∧ ¬ Contains (store.get src2).rects x y := by
  unfold subtractRegion at done
  simp only at done
  split at done
  · rename_i trivial
    refine (copyRegion_stored valid1 done).congr fun x y => ?_
    have := disjoint_of_extentCheck valid1 valid2 trivial x y
    tauto
  · obtain ⟨result, sweep, same⟩ := Option.bind_eq_some_iff.mp done
    cases same
    obtain ⟨banded, points⟩ := (regionOp_spec (implements_subtract alloc) valid1.banded
      valid2.banded valid1.extents_top valid2.extents_top).post sweep
    refine stored_set (valid_setRegionExtents banded) fun x y => ?_
    rw [setRegionExtents_rects]
    exact points x y

/-- A region that is one rectangle around the extents of another one contains it. -/
theorem contains_of_coversExtents {reg1 reg2 : Region} (valid1 : reg1.Valid) (valid2 : reg2.Valid)
    (covers : coversExtents reg1 reg2 = true) {x y : Int} (inside : Contains reg2.rects x y) :
    Contains reg1.rects x y := by
  simp only [coversExtents, Bool.and_eq_true, decide_eq_true_eq] at covers
  obtain ⟨⟨⟨⟨single, left⟩, top⟩, right⟩, bottom⟩ := covers
  obtain ⟨rect, rects⟩ := List.length_eq_one_iff.mp single
  have some2 : reg2.rects ≠ [] := fun empty => contains_nil x y (empty ▸ inside)
  have within := (valid2.bounds some2).within x y inside
  have box : reg1.extents = rect := by
    rw [valid1.extents, rects]
    rfl
  refine ⟨rect, by rw [rects]; exact List.mem_singleton_self rect, ?_⟩
  rw [← box]
  unfold Rectangle.Has at *
  omega

/-- The four assignments compute the union of the extents, also when `dst` is a source: each reads
only the field that it assigns. -/
theorem assignUnionExtents_get (store : Store) (dst src1 src2 id : RegionId) (distinct : src1 ≠ src2) :
    (assignUnionExtents store dst src1 src2).get id =
      if id = dst then
        { store.get dst with
          extents :=
            ⟨min (store.get src1).extents.left (store.get src2).extents.left,
              min (store.get src1).extents.top (store.get src2).extents.top,
              max (store.get src1).extents.right (store.get src2).extents.right,
              max (store.get src1).extents.bottom (store.get src2).extents.bottom⟩ }
      else store.get id := by
  by_cases same : id = dst
  · by_cases first : src1 = dst
    · have second : src2 ≠ dst := fun h => distinct (first.trans h.symm)
      simp [assignUnionExtents, assignExtents, get_set, same, first, second]
    · by_cases second : src2 = dst
      · simp [assignUnionExtents, assignExtents, get_set, same, first, second]
      · simp [assignUnionExtents, assignExtents, get_set, same, first, second]
  · simp [assignUnionExtents, assignExtents, get_set, same]

theorem unionRegion_stored (valid1 : (store.get src1).Valid) (valid2 : (store.get src2).Valid)
    (done : unionRegion alloc store dst src1 src2 = some after) :
    Stored store after dst fun x y =>
      Contains (store.get src1).rects x y ∨ Contains (store.get src2).rects x y := by
  unfold unionRegion at done
  simp only at done
  split at done
  · rename_i same
    refine (copyRegion_stored valid1 done).congr fun x y => ?_
    rw [same, or_self]
  rename_i distinct
  split at done
  · rename_i empty
    refine (copyRegion_stored valid2 done).congr fun x y => ?_
    simp [empty]
  rename_i some1
  split at done
  · rename_i empty
    refine (copyRegion_stored valid1 done).congr fun x y => ?_
    simp [empty]
  rename_i some2
  split at done
  · rename_i covers
    refine (copyRegion_stored valid1 done).congr fun x y => ⟨.inl, ?_⟩
    exact Or.rec id (contains_of_coversExtents valid1 valid2 covers)
  split at done
  · rename_i covers
    refine (copyRegion_stored valid2 done).congr fun x y => ⟨.inr, ?_⟩
    exact Or.rec (contains_of_coversExtents valid2 valid1 covers) id
  obtain ⟨result, sweep, same⟩ := Option.bind_eq_some_iff.mp done
  cases same
  obtain ⟨banded, points⟩ := (regionOp_spec (implements_union alloc) valid1.banded
    valid2.banded valid1.extents_top valid2.extents_top).post sweep
  have kept := (regionOp_extents (keepsExtents_union alloc) ..).post sweep
  -- a source that was just overwritten still has its extents
  have source : ∀ id, ((store.set dst result).get id).extents = (store.get id).extents := by
    intro id
    rw [get_set]
    split
    · rename_i overwritten
      rw [kept, overwritten]
    · rfl
  have bounds := (valid1.bounds some1).union (valid2.bounds some2)
  have final := assignUnionExtents_get (store.set dst result) dst src1 src2 dst distinct
  rw [if_pos rfl, get_set_self, source, source] at final
  refine ⟨?_, fun x y => ?_, fun id other => ?_⟩
  · rw [final]
    refine valid_of_bounds banded (fun empty => ?_) (bounds.congr fun x y => (points x y).symm)
    obtain ⟨y, inside⟩ := (valid1.bounds some1).left
    exact contains_nil _ y (empty ▸ (points _ y).mpr (.inl inside))
  · rw [final]
    exact points x y
  · rw [assignUnionExtents_get _ _ _ _ _ distinct, if_neg other, get_set, if_neg other]

/-- **`xor_region`**, for allocated objects: the temporary region is a new one. -/
theorem xorRegion_stored (old : dst < store.next) (old1 : src1 < store.next)
    (old2 : src2 < store.next) (valid1 : (store.get src1).Valid) (valid2 : (store.get src2).Valid)
    (done : xorRegion alloc store dst src1 src2 = some after) :
    (after.get dst).Valid ∧ ∀ x y, Contains (after.get dst).rects x y ↔
      Xor (Contains (store.get src1).rects x y) (Contains (store.get src2).rects x y) := by
  simp only [xorRegion, Option.bind_eq_bind, Option.bind_eq_some_iff] at done
  obtain ⟨⟨created, tmp⟩, create, first, subtract1, second, subtract2, union⟩ := done
  obtain ⟨rfl, unchanged⟩ : tmp = store.next ∧ ∀ id < store.next, created.get id = store.get id := by
    unfold createEmptyRegion at create
    split at create
    · cases create
      exact ⟨rfl, fun id older => update_of_ne older.ne ..⟩
    · cases create
  have inTmp := subtractRegion_stored (by rw [unchanged _ old1]; exact valid1)
    (by rw [unchanged _ old2]; exact valid2) subtract1
  have get1 : first.get src1 = store.get src1 := by rw [inTmp.others _ old1.ne, unchanged _ old1]
  have get2 : first.get src2 = store.get src2 := by rw [inTmp.others _ old2.ne, unchanged _ old2]
  have inDst := subtractRegion_stored (by rw [get2]; exact valid2) (by rw [get1]; exact valid1) subtract2
  have getTmp : second.get store.next = first.get store.next := inDst.others _ old.ne'
  have result := unionRegion_stored inDst.valid (by rw [getTmp]; exact inTmp.valid) union
  refine ⟨result.valid, fun x y => ?_⟩
  rw [result.contains, inDst.contains, getTmp, inTmp.contains, get1, get2, unchanged _ old1,
    unchanged _ old2]
  exact Or.comm

end Operations

/-! ### The four operations together -/

/-- The set operations on regions. -/
inductive SetOp where
  | intersect
  | union
  | subtract
  | xor
deriving DecidableEq, Repr

/-- The server function of the operation. -/
def SetOp.run : SetOp → Alloc → Store → RegionId → RegionId → RegionId → Option Store
  | .intersect => intersectRegion
  | .union => unionRegion
  | .subtract => subtractRegion
  | .xor => xorRegion

/-- Whether a point belongs to the result, from whether it belongs to the operands. -/
def SetOp.Combine : SetOp → Prop → Prop → Prop
  | .intersect, p, q => p ∧ q
  | .union, p, q => p ∨ q
  | .subtract, p, q => p ∧ ¬ q
  | .xor, p, q => Xor p q

/-- **The region operations are correct.** From two valid regions, a successful operation leaves in
`dst` a valid region of exactly the combined points; `dst` may be either source, or both. -/
theorem setOp_correct (op : SetOp) (alloc : Alloc) (store after : Store) (dst src1 src2 : RegionId)
    (allocated : dst < store.next ∧ src1 < store.next ∧ src2 < store.next)
    (valid1 : (store.get src1).Valid) (valid2 : (store.get src2).Valid)
    (done : op.run alloc store dst src1 src2 = some after) :
    (after.get dst).Valid ∧ ∀ x y, Contains (after.get dst).rects x y ↔
      op.Combine (Contains (store.get src1).rects x y) (Contains (store.get src2).rects x y) := by
  cases op with
  | intersect =>
    have stored := intersectRegion_stored valid1 valid2 done
    exact ⟨stored.valid, stored.contains⟩
  | union =>
    have stored := unionRegion_stored valid1 valid2 done
    exact ⟨stored.valid, stored.contains⟩
  | subtract =>
    have stored := subtractRegion_stored valid1 valid2 done
    exact ⟨stored.valid, stored.contains⟩
  | xor => exact xorRegion_stored allocated.1 allocated.2.1 allocated.2.2 valid1 valid2 done

/-- Two overlapping squares. -/
def twoSquares : Store where
  next := 2
  get id := if id = 0 then ⟨2, [⟨0, 0, 10, 10⟩], ⟨0, 0, 10, 10⟩⟩
    else ⟨2, [⟨5, 5, 15, 15⟩], ⟨5, 5, 15, 15⟩⟩

/-- The exclusive or of two overlapping squares, into the first of them. -/
theorem setOp_correct_twoSquares :
    ∃ after, SetOp.xor.run (fun _ => true) twoSquares 0 0 1 = some after ∧
      (after.get 0).Valid ∧ ∀ x y, Contains (after.get 0).rects x y ↔
        Xor (Contains [⟨0, 0, 10, 10⟩] x y) (Contains [⟨5, 5, 15, 15⟩] x y) := by
  have succeeds : (SetOp.xor.run (fun _ => true) twoSquares 0 0 1).isSome = true := by
    decide +kernel
  obtain ⟨after, done⟩ := Option.isSome_iff_exists.mp succeeds
  exact ⟨after, done, setOp_correct .xor _ twoSquares after 0 0 1 (by decide) (by decide) (by decide)
    done⟩

end FreeWindows.Rgn
