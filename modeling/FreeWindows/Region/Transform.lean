/-
**Mirrored and scaled regions.**

* `mirror_region` turns the order of each band around in place, but its exchange of two rectangles reads
  only one of them: both become the mirrored right one. **`mirror_exact_iff`**: the result is the mirror
  image, with its extents, if and only if each band is a single rectangle whose image has coordinates of
  type `int`; and an empty region keeps its extents only for a client rectangle without width.
* `scale_dpi` divides an `unsigned int`, which a negative coordinate is not. **`scale_exact_iff`**: for
  products that fit, the coordinates are rounded, and the region stays banded, if and only if none is
  negative or there is nothing to divide by.
-/

import FreeWindows.Region.Operations
import FreeWindows.Lib.Bits

namespace FreeWindows.Rgn

open Lib List Rectangle Int

/-! ### Mirroring -/

/-- The variable `width` of `mirror_rect`, an `int`. -/
def Rectangle.width (rect : Rectangle) : Int := int32 (rect.right - rect.left)

def mirrorRect (client rect : Rectangle) : Rectangle :=
  { rect with left := int32 (client.width - rect.right), right := int32 (client.width - rect.left) }

/-- The loop of `mirror_region` over one band, from both of its ends: the rectangle at the end is read
twice. -/
def mirrorBand (client : Rectangle) : List Rectangle → List Rectangle
  | [] => []
  | [rect] => [mirrorRect client rect]
  | _ :: next :: rest =>
    let rect := mirrorRect client (rest.getLastD next)
    rect :: mirrorBand client (next :: rest).dropLast ++ [rect]
termination_by band => band.length
decreasing_by
  simp only [length_dropLast, length_cons]
  omega

/-- The loop over the bands; `fuel` bounds their number. -/
def mirrorBands (client : Rectangle) : (fuel : Nat) → List Rectangle → List Rectangle
  | fuel + 1, rect :: rest =>
    let split := splitBand (rect :: rest)
    mirrorBand client split.1 ++ mirrorBands client fuel split.2
  | _, _ => []

def mirrorRegion (client : Rectangle) (region : Region) : Region :=
  { region with
    rects := mirrorBands client region.rects.length region.rects
    extents := mirrorRect client region.extents }

section Mirror

variable {client : Rectangle}

/-- A band of several rectangles does not stay one. -/
theorem mirrorBand_single {band : List Rectangle} (banded : Banded (mirrorBand client band)) :
    band.length ≤ 1 := by
  match band with
  | [] | [_] => simp
  | first :: next :: rest =>
    rw [mirrorBand, cons_append, banded_cons] at banded
    obtain ⟨⟨horizontal, vertical⟩, follows, -⟩ := banded
    -- the first rectangle of the result is also the last one
    have self := follows _ (mem_append_right _ (mem_singleton_self _))
    unfold Follows at self
    omega

/-- The mirror image in a strip of the given width, in integers. -/
def Rectangle.mirror (span : Int) (rect : Rectangle) : Rectangle :=
  { rect with left := span - rect.right, right := span - rect.left }

/-- The horizontal coordinates of the image are of type `int`. -/
def MirrorFits (span : Int) (rect : Rectangle) : Prop :=
  -2 ^ 31 ≤ span - rect.right ∧ span - rect.left < 2 ^ 31

theorem mirrorRect_eq {rect : Rectangle} (proper : rect.left < rect.right)
    (fits : MirrorFits (client.right - client.left) rect) :
    mirrorRect client rect = rect.mirror (client.right - client.left) := by
  have wraps : ∀ val, -2 ^ 31 ≤ client.right - client.left - val →
      client.right - client.left - val < 2 ^ 31 →
        int32 (client.width - val) = client.right - client.left - val := fun val lower upper => by
    rw [width, int32, int32, bmod_def, bmod_def]
    omega
  obtain ⟨lower, upper⟩ := fits
  rw [mirrorRect, mirror, wraps _ lower (by omega), wraps _ (by omega) upper]

theorem mirrorRect_range (rect : Rectangle) :
    -2 ^ 31 ≤ (mirrorRect client rect).left ∧ (mirrorRect client rect).right < 2 ^ 31 :=
  ⟨Int.le_bmod (by decide), Int.bmod_lt (by decide)⟩

variable {span : Int}

theorem mirror_has (rect : Rectangle) (x y : Int) :
    (rect.mirror span).Has x y ↔ rect.Has (span - 1 - x) y := by
  unfold Rectangle.Has mirror
  dsimp only
  omega

theorem contains_mirror (rects : List Rectangle) (x y : Int) :
    Contains (rects.map (mirror span)) x y ↔ Contains rects (span - 1 - x) y := by
  simp only [Contains, mem_map, exists_exists_and_eq_and, mirror_has]

theorem Bounds.mirror {points : Int → Int → Prop} {box : Rectangle} (bounds : Bounds points box) :
    Bounds (fun x y => points (span - 1 - x) y) (box.mirror span) := by
  obtain ⟨within, ⟨y1, left⟩, ⟨x1, top⟩, ⟨y2, right⟩, ⟨x2, bottom⟩⟩ := bounds
  have back : ∀ x : Int, span - 1 - (span - 1 - x) = x := fun x => by omega
  refine ⟨fun x y inside => (mirror_has box x y).mpr (within _ _ inside), ⟨y2, ?_⟩,
    ⟨span - 1 - x1, ?_⟩, ⟨y1, ?_⟩, ⟨span - 1 - x2, ?_⟩⟩
  · rwa [Rectangle.mirror, show span - 1 - (span - box.right) = box.right - 1 by omega]
  · rwa [back]
  · rwa [Rectangle.mirror, show span - 1 - (span - box.left - 1) = box.left by omega]
  · rwa [back]

theorem Bounds.proper {points : Int → Int → Prop} {box : Rectangle} (bounds : Bounds points box) :
    box.left < box.right := by
  obtain ⟨y, left⟩ := bounds.left
  have := bounds.within _ _ left
  unfold Rectangle.Has at this
  omega

theorem Bounds.mirrorFits {rects : List Rectangle} {box : Rectangle} (bounds : Bounds (Contains rects) box)
    (fits : ∀ rect ∈ rects, MirrorFits span rect) : MirrorFits span box := by
  obtain ⟨_, leftmost, member, first⟩ := bounds.left
  obtain ⟨_, rightmost, member', last⟩ := bounds.right
  have := fits leftmost member
  have := fits rightmost member'
  unfold Rectangle.Has MirrorFits at *
  omega

theorem splitBand_single {rect : Rectangle} {rest : List Rectangle}
    (single : ∀ other ∈ rest, rect.top ≠ other.top) : splitBand (rect :: rest) = ([rect], rest) := by
  cases rest with
  | nil => simp [splitBand, span_eq_takeWhile_dropWhile]
  | cons other rest =>
    have differs : other.top ≠ rect.top := (single other mem_cons_self).symm
    simp [splitBand, span_eq_takeWhile_dropWhile, differs]

variable {fuel : Nat} {rects : List Rectangle}

theorem mirrorBands_eq_map (single : rects.Pairwise fun a b => a.top ≠ b.top)
    (enough : rects.length ≤ fuel) : mirrorBands client fuel rects = rects.map (mirrorRect client) := by
  induction rects generalizing fuel with
  | nil => cases fuel <;> rfl
  | cons rect rest ih =>
    obtain ⟨here, later⟩ := pairwise_cons.mp single
    cases fuel with
    | zero => cases enough
    | succ fuel =>
      rw [mirrorBands, splitBand_single here]
      rw [ih later (Nat.le_of_succ_le_succ enough), mirrorBand]
      rfl

/-- The mirrored list is banded only if each band is a single rectangle. -/
theorem single_of_mirrorBands (banded : Banded rects) (enough : rects.length ≤ fuel)
    (mirrored : Banded (mirrorBands client fuel rects)) : rects.Pairwise fun a b => a.top ≠ b.top := by
  induction fuel generalizing rects with
  | zero => rw [length_eq_zero_iff.mp (Nat.le_zero.mp enough)]; exact List.Pairwise.nil
  | succ fuel ih =>
    cases rects with
    | nil => exact List.Pairwise.nil
    | cons rect rest =>
      obtain ⟨first, second, -⟩ := (banded_append _ _).mp mirrored
      obtain ⟨others, head⟩ := splitBand_fst_cons rect rest
      have whole := splitBand_append (rect :: rest)
      have short := mirrorBand_single first
      rw [head, length_cons] at short
      rw [head, length_eq_zero_iff.mp (Nat.le_zero.mp (Nat.le_of_succ_le_succ short)),
        singleton_append, cons.injEq] at whole
      obtain ⟨-, below, apart⟩ := banded.split
      rw [whole.2] at below apart second
      refine pairwise_cons.mpr ⟨fun other member => ?_, ih below (Nat.le_of_succ_le_succ enough) second⟩
      have := apart other member
      have := ((banded_cons _ _).mp banded).1.2
      omega

end Mirror

/-- **Mirroring is exact** if and only if each band is a single rectangle, the images have coordinates of
type `int`, and there is a rectangle or the client rectangle has no width. -/
theorem mirror_exact_iff (client : Rectangle) (region : Region) (valid : region.Valid) :
    ((mirrorRegion client region).Valid ∧ ∀ x y, Contains (mirrorRegion client region).rects x y ↔
        Contains region.rects (client.right - client.left - 1 - x) y) ↔
      region.rects.Pairwise (fun a b => a.top ≠ b.top) ∧
        (∀ rect ∈ region.rects, MirrorFits (client.right - client.left) rect) ∧
        (region.rects = [] → client.width = 0) := by
  have map : region.rects.Pairwise (fun a b => a.top ≠ b.top) →
      (mirrorRegion client region).rects = region.rects.map (mirrorRect client) := fun single =>
    mirrorBands_eq_map single le_rfl
  constructor
  · rintro ⟨mirrored, points⟩
    have single := single_of_mirrorBands valid.banded le_rfl mirrored.banded
    refine ⟨single, fun rect member => ?_, fun empty => ?_⟩
    · obtain ⟨horizontal, vertical⟩ := valid.banded.proper rect member
      rw [map single] at points
      -- the images of the points at both ends lie in rectangles with coordinates of type `int`
      have inside : ∀ x, rect.left ≤ x → x < rect.right →
          -2 ^ 31 ≤ client.right - client.left - 1 - x ∧ client.right - client.left - x < 2 ^ 31 :=
        fun x lower upper => by
          have image := (points (client.right - client.left - 1 - x) rect.top).mpr
            ⟨rect, member, by unfold Rectangle.Has; omega⟩
          obtain ⟨_, isImage, has⟩ := image
          obtain ⟨other, -, rfl⟩ := mem_map.mp isImage
          have range := @mirrorRect_range client other
          unfold Rectangle.Has at has
          omega
      have := inside rect.left le_rfl horizontal
      have := inside (rect.right - 1) (by omega) (by omega)
      unfold MirrorFits
      omega
    · have extents := mirrored.extents
      rw [mirrorRegion, valid.extents, empty] at extents
      have left : int32 (client.width - 0) = 0 := congrArg Rectangle.left extents
      rwa [Int.sub_zero, width, int32, int32, bmod_bmod] at left
  · rintro ⟨single, fits, empty⟩
    have rects : (mirrorRegion client region).rects =
        region.rects.map (mirror (client.right - client.left)) := by
      rw [map single]
      exact map_congr_left fun rect member =>
        mirrorRect_eq (valid.banded.proper rect member).1 (fits rect member)
    refine ⟨?_, fun x y => by rw [rects, contains_mirror]⟩
    by_cases none : region.rects = []
    · refine ⟨by rw [rects, none]; rfl, ?_⟩
      rw [rects, none, mirrorRegion, valid.extents, none]
      simp [boundingBox, mirrorRect, emptyRect, empty none, int32]
    · have bounds := valid.bounds none
      refine valid_of_bounds ?_ (by rwa [rects, ne_eq, map_eq_nil_iff]) ?_
      · rw [rects]
        refine ⟨pairwise_map.mpr ((valid.banded.order.and single).imp fun both => ?_),
          forall_mem_map.mpr fun rect member => ?_⟩
        · exact .inr (both.1.resolve_left fun same => both.2 same.1)
        · obtain ⟨horizontal, vertical⟩ := valid.banded.proper rect member
          exact ⟨Int.sub_lt_sub_left horizontal _, vertical⟩
      · rw [rects, mirrorRegion, mirrorRect_eq bounds.proper (bounds.mirrorFits fits)]
        exact bounds.mirror.congr fun x y => (contains_mirror _ x y).symm

/-- Two squares side by side, and one below them. -/
def besides : Region := ⟨4, [⟨0, 0, 1, 1⟩, ⟨2, 0, 3, 1⟩], ⟨0, 0, 3, 1⟩⟩

def below : Region := ⟨4, [⟨0, 0, 1, 1⟩, ⟨2, 1, 3, 2⟩], ⟨0, 0, 3, 2⟩⟩

theorem mirror_exact_iff_below : (mirrorRegion ⟨0, 0, 10, 10⟩ below).Valid :=
  ((mirror_exact_iff ⟨0, 0, 10, 10⟩ below (by decide)).mpr
    ⟨by decide, by unfold MirrorFits; decide, by decide⟩).1

/-- Of two squares in a band, one is mirrored twice. -/
theorem mirror_fails :
    besides.Valid ∧
      (mirrorRegion ⟨0, 0, 10, 10⟩ besides).rects = [⟨7, 0, 8, 1⟩, ⟨7, 0, 8, 1⟩] ∧
      ¬(mirrorRegion ⟨0, 0, 10, 10⟩ besides).Valid := by
  have rects : (mirrorRegion ⟨0, 0, 10, 10⟩ besides).rects = [⟨7, 0, 8, 1⟩, ⟨7, 0, 8, 1⟩] := by
    simp [mirrorRegion, besides, mirrorBands, mirrorBand, splitBand, mirrorRect, width, int32, bmod]
  refine ⟨by decide, rects, fun valid => ?_⟩
  have accepted := valid.rectangles
  rw [rects] at accepted
  revert accepted
  decide

/-! ### Scaling -/

/-- `scale_dpi`: the arithmetic is that of `unsigned int`. -/
def scaleDpi (val : Int) (dpiFrom dpiTo : Nat) : Int :=
  if val ≥ 0 then int32 ((val * dpiTo + (dpiFrom / 2 : Nat)) % 2 ^ 32 / dpiFrom)
  else int32 ((val * dpiTo - (dpiFrom / 2 : Nat)) % 2 ^ 32 / dpiFrom)

def scaleDpiRect (dpiFrom dpiTo : Nat) (rect : Rectangle) : Rectangle where
  left := scaleDpi rect.left dpiFrom dpiTo
  top := scaleDpi rect.top dpiFrom dpiTo
  right := scaleDpi rect.right dpiFrom dpiTo
  bottom := scaleDpi rect.bottom dpiFrom dpiTo

def scaleRegion (region : Region) (dpiFrom dpiTo : Nat) : Region :=
  if region.rects = [] then region
  else
    { region with
      rects := region.rects.map (scaleDpiRect dpiFrom dpiTo)
      extents := scaleDpiRect dpiFrom dpiTo region.extents }

/-- The value is the quotient rounded to the nearest integer, halves away from zero. -/
def RoundsAway (num : Int) (den : Nat) (value : Int) : Prop :=
  2 * (num - value * den).natAbs ≤ den ∧
    (2 * (num - value * den).natAbs = den → num.natAbs ≤ (value * den).natAbs)

/-- The products fit, as a coordinate is scaled. -/
def Fits (dpiFrom dpiTo : Nat) (val : Int) : Prop := val.natAbs * dpiTo + dpiFrom / 2 < 2 ^ 31

section Scale

variable {dpiFrom dpiTo : Nat} {val other : Int}

theorem scaleDpi_nonneg (fits : Fits dpiFrom dpiTo val) (nonneg : 0 ≤ val) :
    scaleDpi val dpiFrom dpiTo = (val * dpiTo + (dpiFrom / 2 : Nat)) / dpiFrom := by
  obtain ⟨n, rfl⟩ := eq_ofNat_of_zero_le nonneg
  unfold Fits at fits
  rw [natAbs_natCast] at fits
  have quotient := Nat.div_le_self (n * dpiTo + dpiFrom / 2) dpiFrom
  rw [scaleDpi, if_pos nonneg, ← natCast_mul, ← natCast_add, emod_eq_of_lt (by omega) (by omega),
    ← natCast_ediv, int32_eq (by rw [natAbs_natCast]; omega)]

theorem scaleDpi_one (fits : Fits 1 dpiTo val) : scaleDpi val 1 dpiTo = val * dpiTo := by
  have small : (val * dpiTo).natAbs < 2 ^ 31 := by
    rw [natAbs_mul, natAbs_natCast]
    unfold Fits at fits
    omega
  have exact : int32 (val * dpiTo % 2 ^ 32 / 1) = val * dpiTo := by
    rw [int32, bmod_def]
    omega
  unfold scaleDpi
  split
  · exact (congrArg (fun word => int32 (word % 2 ^ 32 / 1)) (Int.add_zero _)).trans exact
  · exact (congrArg (fun word => int32 (word % 2 ^ 32 / 1)) (Int.sub_zero _)).trans exact

/-- A negative coordinate becomes the large quotient of an `unsigned int`. -/
theorem scaleDpi_neg (proper : 1 < dpiFrom) (negative : val < 0) : 0 ≤ scaleDpi val dpiFrom dpiTo := by
  have lower := emod_nonneg (val * dpiTo - (dpiFrom / 2 : Nat)) (by decide : (2 ^ 32 : Int) ≠ 0)
  have upper := emod_lt_of_pos (val * dpiTo - (dpiFrom / 2 : Nat)) (by decide : (0 : Int) < 2 ^ 32)
  rw [scaleDpi, if_neg (by omega)]
  generalize (val * dpiTo - (dpiFrom / 2 : Nat)) % 2 ^ 32 = word at *
  have quotient := ediv_nonneg lower (natCast_nonneg dpiFrom)
  have whole := Int.ediv_mul_le word (b := dpiFrom) (by omega)
  have half := Int.mul_le_mul_of_nonneg_left (by omega : (2 : Int) ≤ dpiFrom) quotient
  rw [int32_eq]
  exact quotient

/-- The coordinate is scaled right: there is nothing to divide by, or it is not negative. -/
def Scales (dpiFrom : Nat) (val : Int) : Prop := dpiFrom = 1 ∨ 0 ≤ val

variable (positive : 0 < dpiFrom) (grows : dpiFrom ≤ dpiTo) (fits : Fits dpiFrom dpiTo val)
include positive grows fits

theorem scaleDpi_rounds_iff :
    RoundsAway (val * dpiTo) dpiFrom (scaleDpi val dpiFrom dpiTo) ↔ Scales dpiFrom val := by
  unfold RoundsAway
  constructor
  · rintro ⟨near, -⟩
    by_contra wrong
    rw [Scales, not_or] at wrong
    have negative := not_le.mp wrong.2
    have above := Int.mul_nonneg (@scaleDpi_neg dpiFrom dpiTo val (by omega) negative)
      (natCast_nonneg dpiFrom)
    have below := Int.mul_le_mul_of_nonneg_right (c := dpiTo) (by omega : val ≤ -1) (by omega)
    omega
  · rintro (rfl | nonneg)
    · rw [scaleDpi_one fits]
      simp
    · rw [scaleDpi_nonneg fits nonneg]
      have := ediv_mul_add_emod (val * dpiTo + (dpiFrom / 2 : Nat)) dpiFrom
      have := emod_nonneg (val * dpiTo + (dpiFrom / 2 : Nat)) (b := dpiFrom) (by omega)
      have := emod_lt_of_pos (val * dpiTo + (dpiFrom / 2 : Nat)) (b := dpiFrom) (by omega)
      have := Int.mul_nonneg nonneg (Int.natCast_nonneg dpiTo)
      omega

theorem scaleDpi_lt (fits' : Fits dpiFrom dpiTo other) (scales : Scales dpiFrom val)
    (scales' : Scales dpiFrom other) (less : val < other) :
    scaleDpi val dpiFrom dpiTo < scaleDpi other dpiFrom dpiTo := by
  have apart := Int.mul_le_mul_of_nonneg_right (c := dpiTo) (by omega : val + 1 ≤ other) (by omega)
  rw [Int.add_mul, Int.one_mul] at apart
  by_cases one : dpiFrom = 1
  · subst one
    rw [scaleDpi_one fits, scaleDpi_one fits']
    omega
  · rw [scaleDpi_nonneg fits (scales.resolve_left one), scaleDpi_nonneg fits' (scales'.resolve_left one),
      ← add_one_le_iff, ← add_mul_ediv_right _ 1 (by omega : (dpiFrom : Int) ≠ 0)]
    exact Int.ediv_le_ediv (by omega) (by omega)

end Scale

def Rectangle.coordinates (rect : Rectangle) : List Int := [rect.left, rect.top, rect.right, rect.bottom]

/-- **Scaling is exact.** For products that fit, the rectangles stay valid and each coordinate is rounded to
nearest, halves away from zero, if and only if no coordinate is negative or `dpi_from` is 1. -/
theorem scale_exact_iff (region : Region) (dpiFrom dpiTo : Nat)
    (valid : validateRectangles region.rects = true) (positive : 0 < dpiFrom) (grows : dpiFrom ≤ dpiTo)
    (fits : ∀ rect ∈ region.rects, ∀ val ∈ rect.coordinates, Fits dpiFrom dpiTo val) :
    (validateRectangles (scaleRegion region dpiFrom dpiTo).rects = true ∧
      (scaleRegion region dpiFrom dpiTo).rects = region.rects.map (scaleDpiRect dpiFrom dpiTo) ∧
      ∀ rect ∈ region.rects, ∀ val ∈ rect.coordinates,
        RoundsAway (val * dpiTo) dpiFrom (scaleDpi val dpiFrom dpiTo)) ↔
      ∀ rect ∈ region.rects, ∀ val ∈ rect.coordinates, Scales dpiFrom val := by
  have rounds : (∀ rect ∈ region.rects, ∀ val ∈ rect.coordinates,
      RoundsAway (val * dpiTo) dpiFrom (scaleDpi val dpiFrom dpiTo)) ↔
      ∀ rect ∈ region.rects, ∀ val ∈ rect.coordinates, Scales dpiFrom val :=
    forall₄_congr fun rect member val coordinate =>
      scaleDpi_rounds_iff positive grows (fits rect member val coordinate)
  rw [rounds]
  have rects : (scaleRegion region dpiFrom dpiTo).rects = region.rects.map (scaleDpiRect dpiFrom dpiTo) := by
    unfold scaleRegion
    split
    · next empty => rw [empty]; rfl
    · rfl
  refine ⟨fun whole => whole.2.2, fun scales => ⟨?_, rects, scales⟩⟩
  have less : ∀ r ∈ region.rects, ∀ r' ∈ region.rects, ∀ a ∈ r.coordinates, ∀ b ∈ r'.coordinates, a < b →
      scaleDpi a dpiFrom dpiTo < scaleDpi b dpiFrom dpiTo := fun r member r' member' a _ b _ =>
    scaleDpi_lt positive grows (fits r member a ‹_›) (fits r' member' b ‹_›) (scales r member a ‹_›)
      (scales r' member' b ‹_›)
  rw [validateRectangles_iff] at valid ⊢
  rw [rects]
  refine ⟨pairwise_map.mpr (valid.order.imp_of_mem fun {r r'} member member' follows => ?_),
    forall_mem_map.mpr fun rect member => ?_⟩
  · rcases follows with ⟨top, bottom, right⟩ | above
    · exact .inl ⟨congrArg (scaleDpi · _ _) top, congrArg (scaleDpi · _ _) bottom,
        less r member r' member' _ (by simp [coordinates]) _ (by simp [coordinates])
          right⟩
    · rcases le_iff_lt_or_eq.mp above with above | same
      · exact .inr (le_of_lt (less r member r' member' _ (by simp [coordinates]) _
          (by simp [coordinates]) above))
      · exact .inr (le_of_eq (congrArg (scaleDpi · _ _) same))
  · obtain ⟨horizontal, vertical⟩ := valid.proper rect member
    exact ⟨less rect member rect member _ (by simp [coordinates]) _
        (by simp [coordinates]) horizontal,
      less rect member rect member _ (by simp [coordinates]) _
        (by simp [coordinates]) vertical⟩

theorem scale_exact_iff_besides :
    validateRectangles (scaleRegion besides 96 144).rects = true := by
  refine ((scale_exact_iff besides 96 144 (by decide) (by decide) (by decide) ?_).mpr ?_).1
  · unfold Fits
    decide
  · unfold Scales
    decide

/-- A square around the origin. -/
def around : Region := ⟨2, [⟨-1, -1, 1, 1⟩], ⟨-1, -1, 1, 1⟩⟩

/-- Scaled from 96 to 144 dpi, it starts far behind its end. -/
theorem scale_fails :
    around.Valid ∧ (scaleRegion around 96 144).rects = [⟨44739240, 44739240, 2, 2⟩] ∧
      validateRectangles (scaleRegion around 96 144).rects = false := by
  decide

end FreeWindows.Rgn
