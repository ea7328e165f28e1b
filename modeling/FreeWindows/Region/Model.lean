/-
**Server-side region objects** (`server/region.c`).

A region is a list of rectangles in y-x-banded order together with its extents. Everything below
follows the source function by function:

* pointers into a rectangle array are the suffix of the list they point to, and a band
  `[r, rEnd)` is the list of its rectangles;
* allocation is a parameter: `alloc n` says whether a block of `n` rectangles can be had, and a
  function that fails for lack of memory returns `none`;
* region objects live in a `Store` under their identity, since the operations compare object
  pointers and may be called with `dst` equal to one of the sources.
-/

import Mathlib

namespace FreeWindows.Rgn

open Function

/-- `struct rectangle`: half-open in both directions. -/
structure Rectangle where
  left : Int
  top : Int
  right : Int
  bottom : Int
deriving DecidableEq, Repr

/-- The all-zero rectangle of an empty region. -/
def emptyRect : Rectangle := ⟨0, 0, 0, 0⟩

def isRectEmpty (rect : Rectangle) : Bool :=
  decide (rect.left ≥ rect.right) || decide (rect.top ≥ rect.bottom)

/-- `struct region`; `num_rects` is the length of `rects`, `size` the allocated length. -/
structure Region where
  size : Nat
  rects : List Rectangle
  extents : Rectangle
deriving DecidableEq, Repr

/-- Whether a block of that many rectangles can be allocated. -/
abbrev Alloc := Nat → Bool

def rgnDefaultRects : Nat := 2

/-- `EXTENTCHECK`: the two rectangles overlap. -/
def extentCheck (r1 r2 : Rectangle) : Bool :=
  decide (r1.right > r2.left) && decide (r1.left < r2.right) &&
    decide (r1.bottom > r2.top) && decide (r1.top < r2.bottom)

/-- Add a rectangle to a region, doubling the array when it is full. -/
def addRect (alloc : Alloc) (reg : Region) (rect : Rectangle) : Option Region :=
  if reg.rects.length ≥ reg.size then
    if alloc (2 * reg.size) then
      some { reg with size := 2 * reg.size, rects := reg.rects ++ [rect] }
    else none
  else some { reg with rects := reg.rects ++ [rect] }

/-- All rectangles are valid and the list is properly y-x-banded. -/
def validateRectangles : List Rectangle → Bool
  | [] => true
  | [rect] => !isRectEmpty rect
  | rect :: next :: rest =>
    !isRectEmpty rect &&
      (if rect.top = next.top then
        -- same band: same y extent, properly x ordered
        decide (rect.bottom = next.bottom) && decide (rect.right < next.left)
      else decide (rect.bottom ≤ next.top)) &&
      validateRectangles (next :: rest)

/-- The leading rectangles that share the top of the first one, and the rest: `[r, rBandEnd)` and
`[rBandEnd, rEnd)`. -/
def splitBand : List Rectangle → List Rectangle × List Rectangle
  | [] => ([], [])
  | rect :: rest => (rect :: rest).span fun other => decide (other.top = rect.top)

/-- The index at which the last band of the array starts. -/
def lastBandStart (rects : List Rectangle) : Nat :=
  rects.length - (splitBand rects.reverse).1.length

/-- Attempt to merge the band at `curStart` with the one at `prevStart`. Returns the start of the
last band; used only by `regionOp`, after rectangles were added at `curStart`. -/
def coalesceRegion (rects : List Rectangle) (prevStart curStart : Nat) : List Rectangle × Nat :=
  let prev := (rects.drop prevStart).take (curStart - prevStart)
  let (cur, after) := splitBand (rects.drop curStart)
  let curStart := if after.isEmpty then curStart else lastBandStart rects
  match prev, cur with
  | firstPrev :: _, firstCur :: _ =>
    if cur.length = prev.length ∧ firstPrev.bottom = firstCur.top ∧
        prev.map (fun r => (r.left, r.right)) = cur.map (fun r => (r.left, r.right)) then
      let merged := List.zipWith (fun p c : Rectangle => { p with bottom := c.bottom }) prev cur
      (rects.take prevStart ++ merged ++ after, if after.isEmpty then prevStart else curStart)
    else (rects, curStart)
  | _, _ => (rects, curStart)

/-- `overlap_func_t`: a band of each operand and the strip `[top, bottom)`. -/
abbrev OverlapFunc := Region → List Rectangle → List Rectangle → Int → Int → Option Region

/-- `non_overlap_func_t`: a band of one operand and the strip `[top, bottom)`. -/
abbrev NonOverlapFunc := Region → List Rectangle → Int → Int → Option Region

/-- The three callbacks of `region_op`; a missing one is a null pointer. -/
structure Callbacks where
  overlap : OverlapFunc
  nonOverlap1 : Option NonOverlapFunc
  nonOverlap2 : Option NonOverlapFunc

/-- Call a callback if there is one. -/
def callNonOverlap (func : Option NonOverlapFunc) (reg : Region) (band : List Rectangle)
    (top bottom : Int) : Option Region :=
  match func with
  | some f => f reg band top bottom
  | none => some reg

/-- Merge the band added at `curBand`, if any, into the previous one. -/
def coalesceAdded (reg : Region) (prevBand curBand : Nat) : Region × Nat :=
  if reg.rects.length ≠ curBand then
    let (rects, start) := coalesceRegion reg.rects prevBand curBand
    ({ reg with rects := rects }, start)
  else (reg, prevBand)

/-- The local variables of the main loop of `region_op`. -/
structure Sweep where
  newReg : Region
  prevBand : Nat
  r1 : List Rectangle
  r2 : List Rectangle
  ybot : Int

/-- The part of one iteration above the overlapping strip; returns `ytop` as well. -/
def sweepNonOverlap (funcs : Callbacks) (newReg : Region) (a b : Rectangle)
    (band1 band2 : List Rectangle) (ybot : Int) : Option (Region × Int) :=
  if a.top < b.top then
    let top := max a.top ybot
    let bot := min a.bottom b.top
    if top ≠ bot then
      (callNonOverlap funcs.nonOverlap1 newReg band1 top bot).map fun reg => (reg, b.top)
    else some (newReg, b.top)
  else if b.top < a.top then
    let top := max b.top ybot
    let bot := min b.bottom a.top
    if top ≠ bot then
      (callNonOverlap funcs.nonOverlap2 newReg band2 top bot).map fun reg => (reg, a.top)
    else some (newReg, a.top)
  else some (newReg, a.top)

/-- The part of one iteration in the overlapping strip, if there is one. -/
def sweepOverlap (funcs : Callbacks) (newReg : Region) (band1 band2 : List Rectangle)
    (ytop ybot : Int) : Option Region :=
  if ybot > ytop then funcs.overlap newReg band1 band2 ytop ybot else some newReg

/-- One iteration of the main loop of `region_op`. -/
def sweepStep (funcs : Callbacks) (s : Sweep) : Option Sweep :=
  match s.r1, s.r2 with
  | a :: _, b :: _ => do
    let (band1, rest1) := splitBand s.r1
    let (band2, rest2) := splitBand s.r2
    let curBand := s.newReg.rects.length
    let (newReg, ytop) ← sweepNonOverlap funcs s.newReg a b band1 band2 s.ybot
    let (newReg, prevBand) := coalesceAdded newReg s.prevBand curBand
    let ybot := min a.bottom b.bottom
    let curBand := newReg.rects.length
    let newReg ← sweepOverlap funcs newReg band1 band2 ytop ybot
    let (newReg, prevBand) := coalesceAdded newReg prevBand curBand
    some
      { newReg := newReg
        prevBand := prevBand
        r1 := if a.bottom = ybot then rest1 else s.r1
        r2 := if b.bottom = ybot then rest2 else s.r2
        ybot := ybot }
  | _, _ => some s

/-- The main loop of `region_op`, at most `fuel` iterations of it. -/
def sweepLoop (funcs : Callbacks) : Nat → Sweep → Option Sweep
  | 0, s => some s
  | fuel + 1, s => do
    let next ← sweepStep funcs s
    if next.r1 = [] ∨ next.r2 = [] then some next else sweepLoop funcs fuel next

/-- Emit the bands that one operand still has when the other one is exhausted; `fuel` bounds the
number of bands. -/
def emitRest (func : NonOverlapFunc) : Nat → Region → List Rectangle → Int → Option Region
  | fuel + 1, reg, r :: rs, ybot => do
    let (band, rest) := splitBand (r :: rs)
    let reg ← func reg band (max r.top ybot) r.bottom
    emitRest func fuel reg rest ybot
  | _, reg, _, _ => some reg

/-- Emit the rest of whichever operand still has one, if it has a callback. -/
def sweepTail (funcs : Callbacks) (s : Sweep) : Option Region :=
  if s.r1 ≠ [] then
    match funcs.nonOverlap1 with
    | some func => emitRest func s.r1.length s.newReg s.r1 s.ybot
    | none => some s.newReg
  else
    match funcs.nonOverlap2 with
    | some func => emitRest func s.r2.length s.newReg s.r2 s.ybot
    | none => some s.newReg

/-- The part of `region_op` behind the main loop, up to the last `coalesce_region`. -/
def sweepRest (funcs : Callbacks) (s : Sweep) : Option Region := do
  let newReg ← sweepTail funcs s
  some (coalesceAdded newReg s.prevBand s.newReg.rects.length).1

/-- Give back unused space; a failed `realloc` leaves the array as it is. -/
def shrinkRegion (alloc : Alloc) (reg : Region) : Region :=
  if reg.rects.length < reg.size / 2 ∧ reg.size > 2 then
    let newSize := max reg.rects.length rgnDefaultRects
    if alloc newSize then { reg with size := newSize } else reg
  else reg

/-- Apply an operation to two regions, building the result in `newReg`. -/
def regionOp (alloc : Alloc) (newReg reg1 reg2 : Region) (funcs : Callbacks) : Option Region := do
  let newSize := max reg1.rects.length reg2.rects.length * 2
  if alloc newSize then
    let ybot := if reg1.extents.top < reg2.extents.top then reg1.extents.top else reg2.extents.top
    let start : Sweep :=
      { newReg := { newReg with size := newSize, rects := [] }
        prevBand := 0
        r1 := reg1.rects
        r2 := reg2.rects
        ybot := ybot }
    let final ← sweepLoop funcs (reg1.rects.length + reg2.rects.length) start
    let reg ← sweepRest funcs final
    some (shrinkRegion alloc reg)
  else none

/-- One iteration of the loop of `set_region_extents`. -/
def widenExtents (extents rect : Rectangle) : Rectangle :=
  { extents with
    left := if rect.left < extents.left then rect.left else extents.left
    right := if rect.right > extents.right then rect.right else extents.right }

def setRegionExtents (region : Region) : Region :=
  match region.rects with
  | [] => { region with extents := emptyRect }
  | first :: rest =>
    let last := rest.getLastD first
    let start : Rectangle := ⟨first.left, first.top, last.right, last.bottom⟩
    { region with extents := (first :: rest).foldl widenExtents start }

/-- Add a rectangle if its horizontal extent is not empty. -/
def addProper (alloc : Alloc) (reg : Region) (rect : Rectangle) : Option Region :=
  if rect.left < rect.right then addRect alloc reg rect else some reg

/-- Handle an overlapping band for `intersect_region`. -/
def intersectOverlapping (alloc : Alloc) (reg : Region) (r1 r2 : List Rectangle)
    (top bottom : Int) : Option Region :=
  match r1, r2 with
  | a :: r1, b :: r2 => do
    let left := max a.left b.left
    let right := min a.right b.right
    let reg ← addProper alloc reg ⟨left, top, right, bottom⟩
    if a.right < b.right then intersectOverlapping alloc reg r1 (b :: r2) top bottom
    else if b.right < a.right then intersectOverlapping alloc reg (a :: r1) r2 top bottom
    else intersectOverlapping alloc reg r1 r2 top bottom
  | _, _ => some reg
termination_by r1.length + r2.length

/-- Copy a band of one operand into the strip `[top, bottom)`: the body that
`subtract_non_overlapping` and `union_non_overlapping` share. -/
def copyBand (alloc : Alloc) (reg : Region) (band : List Rectangle) (top bottom : Int) :
    Option Region :=
  match band with
  | [] => some reg
  | r :: rest => do
    let reg ← addRect alloc reg ⟨r.left, top, r.right, bottom⟩
    copyBand alloc reg rest top bottom

/-- Handle a non-overlapping band for `subtract_region`. -/
def subtractNonOverlapping (alloc : Alloc) : NonOverlapFunc := copyBand alloc

/-- Handle a non-overlapping band for `union_region`. -/
def unionNonOverlapping (alloc : Alloc) : NonOverlapFunc := copyBand alloc

/-- `left` after `r1++` in `subtract_overlapping`. -/
def nextLeft (left : Int) : List Rectangle → Int
  | [] => left
  | r :: _ => r.left

/-- The loops of `subtract_overlapping`; `left` is where the uncut part of the current rectangle
starts. -/
def subtractLoop (alloc : Alloc) (reg : Region) (left : Int) (r1 r2 : List Rectangle)
    (top bottom : Int) : Option Region :=
  match r1, r2 with
  | a :: r1, b :: r2 =>
    if b.right ≤ left then subtractLoop alloc reg left (a :: r1) r2 top bottom
    else if b.left ≤ left then
      if b.right ≥ a.right then
        subtractLoop alloc reg (nextLeft b.right r1) r1 (b :: r2) top bottom
      else subtractLoop alloc reg b.right (a :: r1) r2 top bottom
    else if b.left < a.right then do
      let reg ← addRect alloc reg ⟨left, top, b.left, bottom⟩
      if b.right ≥ a.right then
        subtractLoop alloc reg (nextLeft b.right r1) r1 (b :: r2) top bottom
      else subtractLoop alloc reg b.right (a :: r1) r2 top bottom
    else do
      let reg ← addProper alloc reg ⟨left, top, a.right, bottom⟩
      subtractLoop alloc reg (nextLeft left r1) r1 (b :: r2) top bottom
  | a :: r1, [] => do
    let reg ← addRect alloc reg ⟨left, top, a.right, bottom⟩
    subtractLoop alloc reg (nextLeft left r1) r1 [] top bottom
  | [], _ => some reg
termination_by r1.length + r2.length

/-- Handle an overlapping band for `subtract_region`. -/
def subtractOverlapping (alloc : Alloc) (reg : Region) (r1 r2 : List Rectangle)
    (top bottom : Int) : Option Region :=
  subtractLoop alloc reg (nextLeft 0 r1) r1 r2 top bottom

/-- `MERGERECT`: extend the last rectangle of the region if it is in this strip and reaches the
new one, else add a rectangle. -/
def mergeRect (alloc : Alloc) (reg : Region) (r : Rectangle) (top bottom : Int) : Option Region :=
  match reg.rects.getLast? with
  | some last =>
    if last.top = top ∧ last.bottom = bottom ∧ last.right ≥ r.left then
      if last.right < r.right then
        some { reg with rects := reg.rects.dropLast ++ [{ last with right := r.right }] }
      else some reg
    else addRect alloc reg ⟨r.left, top, r.right, bottom⟩
  | none => addRect alloc reg ⟨r.left, top, r.right, bottom⟩

/-- Handle an overlapping band for `union_region`. -/
def unionOverlapping (alloc : Alloc) (reg : Region) (r1 r2 : List Rectangle)
    (top bottom : Int) : Option Region :=
  match r1, r2 with
  | a :: r1, b :: r2 =>
    if a.left < b.left then do
      let reg ← mergeRect alloc reg a top bottom
      unionOverlapping alloc reg r1 (b :: r2) top bottom
    else do
      let reg ← mergeRect alloc reg b top bottom
      unionOverlapping alloc reg (a :: r1) r2 top bottom
  | a :: r1, [] => do
    let reg ← mergeRect alloc reg a top bottom
    unionOverlapping alloc reg r1 [] top bottom
  | [], b :: r2 => do
    let reg ← mergeRect alloc reg b top bottom
    unionOverlapping alloc reg [] r2 top bottom
  | [], [] => some reg
termination_by r1.length + r2.length

/-! ### Region objects -/

/-- The identity of a region object. -/
abbrev RegionId := Nat

/-- The region objects; those with an identity below `next` have been allocated. -/
structure Store where
  next : RegionId
  get : RegionId → Region

/-- Write one region object. -/
def Store.set (store : Store) (id : RegionId) (region : Region) : Store :=
  { store with get := update store.get id region }

def createEmptyRegion (alloc : Alloc) (store : Store) : Option (Store × RegionId) :=
  if alloc rgnDefaultRects then
    some ({ next := store.next + 1
            get := update store.get store.next ⟨rgnDefaultRects, [], emptyRect⟩ },
      store.next)
  else none

def copyRegion (alloc : Alloc) (store : Store) (dst src : RegionId) : Option Store :=
  if dst = src then some store
  else
    let target := store.get dst
    let source := store.get src
    if target.size < source.rects.length then
      if alloc source.rects.length then
        some (store.set dst ⟨source.rects.length, source.rects, source.extents⟩)
      else none
    else some (store.set dst ⟨target.size, source.rects, source.extents⟩)

/-- Compute the intersection of two regions into `dst`, which can be one of the sources. -/
def intersectRegion (alloc : Alloc) (store : Store) (dst src1 src2 : RegionId) : Option Store :=
  let reg1 := store.get src1
  let reg2 := store.get src2
  if reg1.rects = [] ∨ reg2.rects = [] ∨ ¬ extentCheck reg1.extents reg2.extents then
    some (store.set dst { store.get dst with rects := [], extents := emptyRect })
  else do
    let result ← regionOp alloc (store.get dst) reg1 reg2 ⟨intersectOverlapping alloc, none, none⟩
    some (store.set dst (setRegionExtents result))

/-- Compute the subtraction of two regions into `dst`, which can be one of the sources. -/
def subtractRegion (alloc : Alloc) (store : Store) (dst src1 src2 : RegionId) : Option Store :=
  let reg1 := store.get src1
  let reg2 := store.get src2
  if reg1.rects = [] ∨ reg2.rects = [] ∨ ¬ extentCheck reg1.extents reg2.extents then
    copyRegion alloc store dst src1
  else do
    let result ← regionOp alloc (store.get dst) reg1 reg2
      ⟨subtractOverlapping alloc, some (subtractNonOverlapping alloc), none⟩
    some (store.set dst (setRegionExtents result))

/-- The extents of the first region, which is a single rectangle, contain those of the second. -/
def coversExtents (reg1 reg2 : Region) : Bool :=
  decide (reg1.rects.length = 1) && decide (reg1.extents.left ≤ reg2.extents.left) &&
    decide (reg1.extents.top ≤ reg2.extents.top) &&
    decide (reg1.extents.right ≥ reg2.extents.right) &&
    decide (reg1.extents.bottom ≥ reg2.extents.bottom)

/-- Assign one field of the extents of `dst`, reading the sources when the assignment is made:
`dst` may be one of them. -/
def assignExtents (store : Store) (dst src1 src2 : RegionId)
    (assign : Rectangle → Rectangle → Rectangle → Rectangle) : Store :=
  let region := store.get dst
  store.set dst { region with
    extents := assign region.extents (store.get src1).extents (store.get src2).extents }

/-- The four assignments at the end of `union_region`, in the order of the source. -/
def assignUnionExtents (store : Store) (dst src1 src2 : RegionId) : Store :=
  let store := assignExtents store dst src1 src2 fun e e1 e2 => { e with left := min e1.left e2.left }
  let store := assignExtents store dst src1 src2 fun e e1 e2 => { e with top := min e1.top e2.top }
  let store := assignExtents store dst src1 src2 fun e e1 e2 =>
    { e with right := max e1.right e2.right }
  assignExtents store dst src1 src2 fun e e1 e2 => { e with bottom := max e1.bottom e2.bottom }

/-- Compute the union of two regions into `dst`, which can be one of the sources. -/
def unionRegion (alloc : Alloc) (store : Store) (dst src1 src2 : RegionId) : Option Store :=
  let reg1 := store.get src1
  let reg2 := store.get src2
  if src1 = src2 then copyRegion alloc store dst src1
  else if reg1.rects = [] then copyRegion alloc store dst src2
  else if reg2.rects = [] then copyRegion alloc store dst src1
  else if coversExtents reg1 reg2 then copyRegion alloc store dst src1
  else if coversExtents reg2 reg1 then copyRegion alloc store dst src2
  else do
    let result ← regionOp alloc (store.get dst) reg1 reg2
      ⟨unionOverlapping alloc, some (unionNonOverlapping alloc), some (unionNonOverlapping alloc)⟩
    some (assignUnionExtents (store.set dst result) dst src1 src2)

/-- Compute the exclusive or of two regions into `dst`, which can be one of the sources. The
temporary region is freed at the end: its identity is not handed out again. -/
def xorRegion (alloc : Alloc) (store : Store) (dst src1 src2 : RegionId) : Option Store := do
  let (store, tmp) ← createEmptyRegion alloc store
  let store ← subtractRegion alloc store tmp src1 src2
  let store ← subtractRegion alloc store dst src2 src1
  unionRegion alloc store dst dst tmp

end FreeWindows.Rgn
